/-
# Unified diffs

How a change of a text is shown: under a header of two lines, hunks of
deleted, inserted and unchanged lines, in which every change has up to
`context` unchanged lines around it. Changes whose unchanged lines would
overlap or touch share a hunk. The head of a hunk tells, for each text, the
first line and the number of lines, from the positions of its first and last
part; a single line is told by its place alone, and an empty range by the line
before it.

A line ends in a line feed, a carriage return or both; one that has no ending
is followed by a remark.

Key definitions: `Diff.lines`, `Diff.parts`, `Diff.hunks`, `Diff.unified`.
-/
import Nameplate.Diff.Slide
import Nameplate.Path

namespace Nameplate
namespace Diff

/-- The lines of a text with their endings. -/
def lines : Text → List Text
  | [] => []
  | '\r' :: '\n' :: rest => ['\r', '\n'] :: lines rest
  | c :: rest =>
    if c = '\n' ∨ c = '\r' then [c] :: lines rest
    else
      match lines rest with
      | [] => [[c]]
      | line :: more => (c :: line) :: more

/-- A part of a diff. A change replaces old items by new ones, either of which may be none. -/
inductive Part where
  | kept (old new length : Nat)
  | changed (old oldLength new newLength : Nat)
  deriving DecidableEq, Repr

/-- The number of items in edits. -/
def total (edits : List Edit) : Nat := edits.foldl (fun n e => n + e.length) 0

/-- The part that adjacent edits make, all of which keep or none does. It begins where the first
of them does; a change begins in the old list where its first deletion does and in the new list
where its first insertion does. -/
def part? (edits : List Edit) : Option Part :=
  let deletions := edits.filter fun e => e.kind = .delete
  let insertions := edits.filter fun e => e.kind = .insert
  match edits.head?, deletions.head?, insertions.head? with
  | some e, none, none => some (.kept e.old e.new (total edits))
  | _, some d, none => some (.changed d.old (total deletions) d.new 0)
  | _, none, some i => some (.changed i.old 0 i.new (total insertions))
  | _, some d, some i => some (.changed d.old (total deletions) i.new (total insertions))
  | none, none, none => none

/-- The parts of a diff, kept ones and changes by turns. -/
def parts (edits : List Edit) : List Part :=
  (edits.splitBy fun a b => (a.kind = .keep) = (b.kind = .keep)).filterMap part?

namespace Part

/-- The first position in the old list. -/
def oldStart : Part → Nat
  | kept old _ _ => old
  | changed old _ _ _ => old

/-- The position after the last in the old list. -/
def oldStop : Part → Nat
  | kept old _ n => old + n
  | changed old n _ _ => old + n

/-- The first position in the new list. -/
def newStart : Part → Nat
  | kept _ new _ => new
  | changed _ _ new _ => new

/-- The position after the last in the new list. -/
def newStop : Part → Nat
  | kept _ new n => new + n
  | changed _ _ new n => new + n

/-- At most the last `n` items of a kept part. -/
def lastKept (n : Nat) : Part → Part
  | kept old new length => kept (old + (length - n)) (new + (length - n)) (min length n)
  | p => p

/-- At most the first `n` items of a kept part. -/
def firstKept (n : Nat) : Part → Part
  | kept old new length => kept old new (min length n)
  | p => p

end Part

/-- Divides parts into hunks: a kept part too long to lie between two changes of one hunk gives
its first items to the hunk it ends and its last to the one it begins. The hunk under way is
given in reverse. -/
def hunksFrom (context : Nat) : List Part → List Part → List (List Part)
  | [], [] | [.kept _ _ _], [] => []
  | hunk, [] => [hunk.reverse]
  | hunk, p :: rest =>
    match p with
    | .kept _ _ length =>
      if 2 * context < length then
        (p.firstKept context :: hunk).reverse :: hunksFrom context [p.lastKept context] rest
      else hunksFrom context (p :: hunk) rest
    | .changed _ _ _ _ => hunksFrom context (p :: hunk) rest

/-- The hunks of a diff. Of the items kept before the first change and after the last only the
context is shown. -/
def hunks (context : Nat) (ps : List Part) : List (List Part) :=
  let ps := ps.modifyHead (Part.lastKept context)
  hunksFrom context [] (ps.reverse.modifyHead (Part.firstKept context)).reverse

/-- A range of lines in the head of a hunk. -/
def showRange (start stop : Nat) : Text :=
  match stop - start with
  | 0 => Text.ofNat start ++ ",0"
  | 1 => Text.ofNat (start + 1)
  | n => Text.ofNat (start + 1) ++ ',' :: Text.ofNat n

/-- The head of a hunk. -/
def showHead (hunk : List Part) : Text :=
  match hunk.head?, hunk.getLast? with
  | some first, some last =>
    "@@ -" ++ showRange first.oldStart last.oldStop ++ " +" ++ showRange first.newStart last.newStop ++
      " @@\n"
  | _, _ => []

/-- A line with its mark; the remark follows a line without an ending. -/
def showLine (mark : Char) (line : Text) : Text :=
  if line.getLast? = some '\n' ∨ line.getLast? = some '\r' then mark :: line
  else mark :: line ++ "\n\\ No newline at end of file\n"

/-- The lines of a part. -/
def showPart (old new : List Text) (p : Part) : Text :=
  match p with
  | .kept _ _ _ => (slice old p.oldStart p.oldStop).flatMap (showLine ' ')
  | .changed _ _ _ _ =>
    (slice old p.oldStart p.oldStop).flatMap (showLine '-') ++
      (slice new p.newStart p.newStop).flatMap (showLine '+')

/-- The change from one text to another; `path` is the name of both. Nothing is shown when there
is no change. -/
def unified (context : Nat) (path : Path) (old new : Text) : Text :=
  let old := lines old
  let new := lines new
  let found := hunks context (parts (compact old new (place 0 0 (script old new))))
  let header : Text := "--- " ++ path ++ "\n+++ " ++ path ++ "\n"
  (if found = [] then [] else header) ++
    found.flatMap fun hunk => showHead hunk ++ hunk.flatMap (showPart old new)

end Diff
end Nameplate
