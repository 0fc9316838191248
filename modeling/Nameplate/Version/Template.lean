/-
# Version templates

A line that declares a version carries a template: numbers and dots, a `*`
where a number is to be filled in, and `-d` on a version under development.
Each rule works on the quoted value of the line, or on all of a line without
one, so nothing around the value changes.

* `numeric` fills every `*` with the version part, followed by as many zero
  components as bring the template to four.
* `development` fills `*` with 0 and puts the stamp after the first `-d`.
* `release` fills `*` with 0 and, on a version under development, drops every
  `-d` or puts the release version in its place.
* `newSemantic` and `newNumeric` start a new development version.

Key definitions: `Template.numeric`, `Template.development`,
`Template.release`, `Template.newSemantic`, `Template.newNumeric`.
-/
import Nameplate.Text.Quoted
import Nameplate.Version.Moment

namespace Nameplate
namespace Template

/-- The character that stands for a number to be filled in. -/
def placeholder : Char := '*'

/-- The mark of a version under development. -/
def mark : Text := ['-', 'd']

/-- A version part with the components that a template with `dots` dots lacks. -/
def filling (part : Text) (dots : Nat) : Text :=
  match dots with
  | 3 => part
  | 2 => part ++ ['.', '0']
  | 1 => part ++ ['.', '0', '.', '0']
  | _ => part ++ ['.', '0', '.', '0', '.', '0']

/-- Whether the value of the line has a number to be filled in. -/
def awaitsPart (line : Text) : Bool := decide (placeholder ∈ Text.quotedOrAll line)

/-- The value with the version part in every place. -/
def fill (part value : Text) : Text :=
  Text.replace placeholder (filling part (value.count '.')) value

/-- The numeric rule; `none` when there is a number to be filled in and nothing to put there. -/
def numeric (part : Option Text) (line : Text) : Option Text :=
  if awaitsPart line then
    (part.bind Text.nonBlank?).map fun p => Text.mapQuoted (fill p) line
  else some line

/-- The value with 0 in every place. -/
def zero (value : Text) : Text := Text.replace placeholder ['0'] value

/-- The text with `stamp` after the first mark. -/
def stampMark (stamp : Text) : Text → Text
  | '-' :: 'd' :: rest => '-' :: 'd' :: (stamp ++ rest)
  | c :: rest => c :: stampMark stamp rest
  | [] => []

/-- The text without its marks. -/
def dropMarks : Text → Text
  | '-' :: 'd' :: rest => dropMarks rest
  | c :: rest => c :: dropMarks rest
  | [] => []

/-- The rule for a version that stays under development. -/
def development (now : Moment) : Text → Text :=
  Text.mapQuoted fun value => stampMark now.stamp (zero value)

/-- The value of a released version. -/
def releaseValue (version : Option Text) (value : Text) : Text :=
  let value := zero value
  if Text.contains mark value then
    match version.bind Text.nonBlank? with
    | some v => dropMarks v
    | none => dropMarks value
  else value

/-- The rule for a version that is released. -/
def release (version : Option Text) : Text → Text := Text.mapQuoted (releaseValue version)

/-- A new version, marked as under development. -/
def marked (version : Text) : Text := if Text.contains mark version then version else version ++ mark

/-- The rule for a new version where a semantic version stands. -/
def newSemantic (version : Text) : Text → Text := Text.mapQuoted fun _ => marked version

/-- The rule for a new version where a numeric version stands. -/
def newNumeric (version : Text) : Text → Text :=
  Text.mapQuoted fun _ => dropMarks version ++ ['.', '0']

theorem numeric_of_not_awaitsPart {line : Text} (h : awaitsPart line = false)
    (part : Option Text) : numeric part line = some line := by
  simp [numeric, h]

/-- The numeric rule fails only for want of a version part. -/
theorem numeric_eq_none_iff (part : Option Text) (line : Text) :
    numeric part line = none ↔ awaitsPart line = true ∧ part.bind Text.nonBlank? = none := by
  unfold numeric
  split <;> simp_all

end Template
end Nameplate
