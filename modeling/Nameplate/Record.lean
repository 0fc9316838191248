/-
# The metadata of a project

The four fields every project must declare. A field is missing when it is
blank; a record is complete when no field is missing.

Key definitions: `Record.missing`, `Record.isComplete`.
-/
import Nameplate.Text

namespace Nameplate

/-- What a project says about itself. -/
structure Record where
  title : Text := []
  description : Text := []
  company : Text := []
  version : Text := []
  deriving DecidableEq, Repr

namespace Record

/-- The fields with their names, in the order in which they are reported. -/
def fields (r : Record) : List (Text × Text) :=
  [("Title", r.title), ("Description", r.description), ("Company", r.company), ("Version", r.version)]

/-- The names of the blank fields. -/
def missing (r : Record) : List Text :=
  (r.fields.filter fun (_, value) => Text.isBlank value).map fun (name, _) => name

/-- Whether no field is blank. -/
def isComplete (r : Record) : Bool := r.missing.isEmpty

theorem isComplete_iff (r : Record) :
    r.isComplete = true ↔ ∀ field ∈ r.fields, Text.isBlank field.2 = false := by
  simp only [isComplete, missing, List.isEmpty_iff, List.map_eq_nil_iff, List.filter_eq_nil_iff,
    Bool.not_eq_true]

end Record
end Nameplate
