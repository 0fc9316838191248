/-
# Logical lines

Most languages declare an attribute on one line. Where a declaration goes on
to the next physical line, the two together are one logical line: the line
that opens the declaration takes the next one with it, whatever that one
holds, and the taken line opens nothing itself.

`group` sorts the lines of a reading into logical lines, left to right. When
the reading was cut short, a declaration whose second line never came is no
group; it falls to the failure that cut the reading.

Key definitions: `Group`, `Group.sort`.
-/
import Nameplate.Line.Reading

namespace Nameplate

/-- A logical line. -/
inductive Group where
  /-- A line that opens no declaration. -/
  | other (line : Line)
  /-- A declaration on a line of its own. -/
  | single (line : Line)
  /-- A declaration that takes the next line with it. -/
  | pair (first second : Line)
  deriving DecidableEq, Repr

namespace Group

/-- The physical lines of a logical line. -/
def lines : Group → List Line
  | .other l | .single l => [l]
  | .pair a b => [a, b]

/-- The text of a logical line, the second line directly after the first. -/
def text : Group → Text
  | .other l | .single l => l.text
  | .pair a b => a.text ++ b.text

/-- Whether the logical line is a declaration. -/
def declares : Group → Bool
  | .other _ => false
  | .single _ | .pair _ _ => true

/-- Sorts lines into logical lines. `opens` says which lines open a declaration, `joins` whether
a declaration takes the next line, `cut` whether lines that should follow are missing. -/
def sort (opens : Text → Bool) (joins cut : Bool) : List Line → List Group
  | [] => []
  | [l] =>
    if opens l.text then
      if joins && cut then [] else [.single l]
    else [.other l]
  | l :: next :: rest =>
    if opens l.text then
      if joins then .pair l next :: sort opens joins cut rest
      else .single l :: sort opens joins cut (next :: rest)
    else .other l :: sort opens joins cut (next :: rest)

/-- The logical lines of a complete reading are its lines, in order. -/
theorem lines_sort (opens : Text → Bool) (joins : Bool) : ∀ ls : List Line,
    (sort opens joins false ls).flatMap lines = ls
  | [] => rfl
  | [l] => by
    simp only [sort, Bool.and_false]
    split <;> rfl
  | l :: next :: rest => by
    have hr := lines_sort opens joins rest
    have hn := lines_sort opens joins (next :: rest)
    rw [sort]
    split
    · split
      · simp [lines, hr]
      · simp [lines, hn]
    · simp [lines, hn]

end Group

/-- The logical lines of a reading. -/
def Reading.groups (opens : Text → Bool) (joins : Bool) (r : Reading) : List Group :=
  Group.sort opens joins r.failure.isSome r.lines

end Nameplate
