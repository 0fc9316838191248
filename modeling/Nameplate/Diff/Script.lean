/-
# Edit scripts

A script turns one list into another in runs: so many items kept, deleted or
inserted. `script` finds a shortest one by search from both ends.

The search walks a grid whose point `(x, y)` stands for `x` items taken from
the old list and `y` from the new. A diagonal holds the points with one
difference `x - y`. After `d` edits a front holds, for the diagonals `d`,
`d - 2`, … , `-d` in this order, the greatest `x` that `d` edits reach on
each. One front goes forward through the lists, one backward, which is forward
through the reversed lists; where they meet on a diagonal, a shortest script
passes, and the lists are divided there.

Key definitions: `Run`, `nextStarts`, `meeting?`, `script`.
-/
import Nameplate.Text

namespace Nameplate
namespace Diff

/-- A run of a script. -/
inductive Run where
  | keep (length : Nat)
  | delete (length : Nat)
  | insert (length : Nat)
  deriving DecidableEq, Repr

variable {α : Type} [DecidableEq α]

/-- The length of the common beginning of two lists. -/
def commonLength : List α → List α → Nat
  | a :: as, b :: bs => if a = b then commonLength as bs + 1 else 0
  | _, _ => 0

theorem commonLength_le_left : ∀ as bs : List α, commonLength as bs ≤ as.length
  | [], _ => by simp [commonLength]
  | _ :: _, [] => by simp [commonLength]
  | a :: as, b :: bs => by
    have := commonLength_le_left as bs
    unfold commonLength
    split <;> simp; exact this

/-- The two lists agree as far as their common length says. -/
theorem take_commonLength : ∀ as bs : List α,
    as.take (commonLength as bs) = bs.take (commonLength as bs)
  | [], _ => by simp [commonLength]
  | _ :: _, [] => by simp [commonLength]
  | a :: as, b :: bs => by
    unfold commonLength
    split
    next h => simp [h, take_commonLength as bs]
    next => simp

/-- Where the diagonals between the outermost two are entered with one more edit: from the
neighbour that got further, and by a deletion if both got as far. -/
def innerStarts : List Nat → List Nat
  | above :: below :: rest =>
    (if below < above then above else below + 1) :: innerStarts (below :: rest)
  | front => front

/-- Where each diagonal is entered with one more edit than the front has. -/
def nextStarts : List Nat → List Nat
  | [] => [0]
  | first :: rest => (first + 1) :: innerStarts (first :: rest)

/-- A diagonal in the search: where it was entered, and how far it is free of edits. -/
structure Reach where
  diagonal : Int
  start : Nat
  stop : Nat
  deriving DecidableEq, Repr

/-- The `y` of the point on the diagonal at `x`. -/
def Reach.across (r : Reach) (x : Nat) : Nat := ((x : Int) - r.diagonal).toNat

/-- Follows each diagonal from where it is entered as far as the lists agree. -/
def reaches (old new : List α) (front : List Nat) : List Reach :=
  let starts := nextStarts front
  let top : Int := starts.length - 1
  starts.mapIdx fun i x =>
    let r : Reach := ⟨top - 2 * i, x, x⟩
    { r with stop := x + commonLength (old.drop x) (new.drop (r.across x)) }

/-- How far a front has got on a diagonal. -/
def reached? (front : List Nat) (diagonal : Int) : Option Nat :=
  let i := ((front.length : Int) - 1 - diagonal) / 2
  if i < 0 then none else front[i.toNat]?

/-- Whether a diagonal has met the opposite front, the old list being `n` items longer than
`m`. The opposite front counts its diagonals from the other corner. -/
def Reach.meets (n m : Nat) (opposite : List Nat) (r : Reach) : Bool :=
  (reached? opposite ((n : Int) - m - r.diagonal)).any fun x => n ≤ r.stop + x

/-- Goes on from two fronts until they meet. When the lengths differ by an odd number a shortest
script has an odd number of edits and the forward front meets the backward one; otherwise the
backward front meets the forward one. The first number bounds the steps. -/
def meetingFrom (old new : List α) : Nat → List Nat → List Nat → Option (Nat × Nat)
  | 0, _, _ => none
  | steps + 1, forward, backward =>
    let odd := (old.length + new.length) % 2 = 1
    let ahead := reaches old new forward
    match if odd then ahead.find? (Reach.meets old.length new.length backward) else none with
    | some r => some (r.start, r.across r.start)
    | none =>
      let forward := ahead.map Reach.stop
      let behind := reaches old.reverse new.reverse backward
      match if odd then none else behind.find? (Reach.meets old.length new.length forward) with
      | some r => some (old.length - r.stop, new.length - r.across r.stop)
      | none => meetingFrom old new steps forward (behind.map Reach.stop)

/-- A point that a shortest script passes. -/
def meeting? (old new : List α) : Option (Nat × Nat) :=
  meetingFrom old new ((old.length + new.length + 1) / 2 + 1) [] []

/-- A run of kept items, if there are any. -/
def kept (length : Nat) : List Run := if length = 0 then [] else [.keep length]

/-- A script for two lists: what they have in common at the ends is kept, and the rest is divided
where the search meets, if that makes both parts smaller. -/
def script (old new : List α) : List Run :=
  let before := commonLength old new
  let after := commonLength (old.drop before).reverse (new.drop before).reverse
  let a := (old.drop before).take (old.length - before - after)
  let b := (new.drop before).take (new.length - before - after)
  have ha : a.length ≤ old.length := by simp only [a, List.length_take, List.length_drop]; omega
  have hb : b.length ≤ new.length := by simp only [b, List.length_take, List.length_drop]; omega
  let middle :=
    if a.length = 0 ∧ b.length = 0 then []
    else if b.length = 0 then [.delete a.length]
    else if a.length = 0 then [.insert b.length]
    else
      match meeting? a b with
      | some (x, y) =>
        if (0 < x ∨ 0 < y) ∧ (x < a.length ∨ y < b.length) then
          script (a.take x) (b.take y) ++ script (a.drop x) (b.drop y)
        else [.delete a.length, .insert b.length]
      | none => [.delete a.length, .insert b.length]
  kept before ++ middle ++ kept after
  termination_by old.length + new.length
  decreasing_by
    all_goals simp only [List.length_take, List.length_drop]
    all_goals omega

end Diff
end Nameplate
