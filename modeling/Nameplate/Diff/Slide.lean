/-
# Sliding insertions

The same change can be told in several ways: an insertion next to kept items
can slide over them wherever what it passes and what it inserts agree. Before
a script is shown, its edits are brought together: every deletion and then
every insertion is moved up as far as it goes and then down as far as it goes,
and meets others of its kind on the way, with which it joins. Insertions and
deletions change places freely; a deletion never slides.

An edit carries the positions it had in the two lists. When an insertion and a
deletion change places, both keep the positions they had.

Key definitions: `Edit`, `place`, `Slide.up`, `Slide.down`, `compact`.
-/
import Nameplate.Diff.Script

namespace Nameplate
namespace Diff

/-- What an edit does. -/
inductive Kind where
  | keep
  | delete
  | insert
  deriving DecidableEq, Repr

/-- An edit, with where it begins in the two lists. -/
structure Edit where
  kind : Kind
  old : Nat
  new : Nat
  length : Nat
  deriving DecidableEq, Repr

namespace Edit

/-- Where the edit ends in the old list. -/
def oldEnd (e : Edit) : Nat := if e.kind = .insert then e.old else e.old + e.length

/-- Where the edit ends in the new list. -/
def newEnd (e : Edit) : Nat := if e.kind = .delete then e.new else e.new + e.length

/-- The edit moved up. -/
def moveUp (n : Nat) (e : Edit) : Edit := { e with old := e.old - n, new := e.new - n }

/-- The edit moved down. -/
def moveDown (n : Nat) (e : Edit) : Edit := { e with old := e.old + n, new := e.new + n }

/-- The edit with `n` more items at its end. -/
def extend (n : Nat) (e : Edit) : Edit := { e with length := e.length + n }

/-- The edit without its last `n` items. -/
def shorten (n : Nat) (e : Edit) : Edit := { e with length := e.length - n }

end Edit

/-- The edits of a script whose first run is at the given positions. -/
def place : Nat → Nat → List Run → List Edit
  | _, _, [] => []
  | old, new, .keep n :: rest => ⟨.keep, old, new, n⟩ :: place (old + n) (new + n) rest
  | old, new, .delete n :: rest => ⟨.delete, old, new, n⟩ :: place (old + n) new rest
  | old, new, .insert n :: rest => ⟨.insert, old, new, n⟩ :: place old (new + n) rest

variable {α : Type} [DecidableEq α]

/-- The items from one position up to another. -/
def slice (items : List α) (start stop : Nat) : List α := (items.drop start).take (stop - start)

/-- An edit that is being moved, among the edits before it, the nearest first, and those after. -/
structure Slide where
  before : List Edit
  moved : Edit
  after : List Edit
  deriving Repr

namespace Slide

/-- How many items of the kept run above it an edit can slide over. -/
def roomAbove (old new : List α) (above moved : Edit) : Nat :=
  if moved.kind = .insert then
    commonLength (slice old above.old above.oldEnd).reverse (slice new moved.new moved.newEnd).reverse
  else 0

/-- How many items of the kept run below it an edit can slide over. -/
def roomBelow (old new : List α) (below moved : Edit) : Nat :=
  if moved.kind = .insert then
    commonLength (slice old below.old below.oldEnd) (slice new moved.new moved.newEnd)
  else 0

/-- Puts `n` kept items, which an edit has slid over, below it. -/
def keepBelow (n : Nat) (above moved : Edit) : List Edit → List Edit
  | below :: rest =>
    if below.kind = .keep then (below.moveUp n).extend n :: rest
    else ⟨.keep, above.oldEnd - n, moved.newEnd - n, n⟩ :: below :: rest
  | [] => [⟨.keep, above.oldEnd - n, moved.newEnd - n, n⟩]

/-- Puts `n` kept items, which an edit has slid over, above it. -/
def keepAbove (n : Nat) (below moved : Edit) : List Edit → List Edit
  | above :: rest =>
    if above.kind = .keep then above.extend n :: rest
    else ⟨.keep, below.old, moved.new, n⟩ :: above :: rest
  | [] => [⟨.keep, below.old, moved.new, n⟩]

/-- A run before others, unless it is empty. -/
def consNonempty (e : Edit) (rest : List Edit) : List Edit := if e.length = 0 then rest else e :: rest

/-- The items an edit could move over, and the edits among them. -/
def weight (edits : List Edit) : Nat := edits.foldl (fun n e => n + e.length + 1) 0

/-- Moves an edit up as far as it goes. The number bounds the steps. -/
def upFor (old new : List α) : Nat → Slide → Slide
  | 0, s => s
  | steps + 1, s =>
    match s.before with
    | [] => s
    | above :: before =>
      if above.kind = .keep then
        let n := roomAbove old new above s.moved
        if 0 < n then
          upFor old new steps
            ⟨consNonempty (above.shorten n) before, s.moved.moveUp n,
              keepBelow n above s.moved s.after⟩
        else if above.length = 0 then upFor old new steps { s with before }
        else s
      else if above.kind = s.moved.kind then
        upFor old new steps { s with before, moved := above.extend s.moved.length }
      else upFor old new steps { s with before, after := above :: s.after }

/-- Moves an edit down as far as it goes. The number bounds the steps. -/
def downFor (old new : List α) : Nat → Slide → Slide
  | 0, s => s
  | steps + 1, s =>
    match s.after with
    | [] => s
    | below :: after =>
      if below.kind = .keep then
        let n := roomBelow old new below s.moved
        if 0 < n then
          downFor old new steps
            ⟨keepAbove n below s.moved s.before, s.moved.moveDown n,
              consNonempty ((below.moveDown n).shorten n) after⟩
        else if below.length = 0 then downFor old new steps { s with after }
        else s
      else if below.kind = s.moved.kind then
        downFor old new steps { s with moved := s.moved.extend below.length, after }
      else downFor old new steps { s with before := below :: s.before, after }

/-- Moves an edit up as far as it goes; every step passes an item or an edit. -/
def up (old new : List α) (s : Slide) : Slide := upFor old new (weight s.before) s

/-- Moves an edit down as far as it goes; every step passes an item or an edit. -/
def down (old new : List α) (s : Slide) : Slide := downFor old new (weight s.after) s

/-- Moves every edit of one kind up and down, one after the other. The number bounds the edits
that are passed. -/
def allFor (old new : List α) (kind : Kind) : Nat → List Edit → List Edit → List Edit
  | 0, before, after => before.reverse ++ after
  | _ + 1, before, [] => before.reverse
  | steps + 1, before, e :: after =>
    if e.kind = kind then
      let s := down old new (up old new ⟨before, e, after⟩)
      allFor old new kind steps (s.moved :: s.before) s.after
    else allFor old new kind steps (e :: before) after

/-- Moves every edit of one kind up and down. -/
def all (old new : List α) (kind : Kind) (edits : List Edit) : List Edit :=
  allFor old new kind (weight edits) [] edits

end Slide

/-- The edits brought together, deletions first. -/
def compact (old new : List α) (edits : List Edit) : List Edit :=
  Slide.all old new .insert (Slide.all old new .delete edits)

end Diff
end Nameplate
