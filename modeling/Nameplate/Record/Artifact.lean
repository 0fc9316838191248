/-
# The metadata of a build artifact

A build writes the attributes of an artifact to a JSON manifest beside it. The
manifest is an object with a name, a version and an object of attributes, each
of which may be left out; other members are passed over, a member given twice
is an error, and an array of the three, or of the first of them, stands for
the object. Of an attribute given twice the last counts.

An artifact's record needs a title, a description, a company and a version:
the informational version, or the artifact's own where that is blank. What is
wanting is reported in the order of the fields, one at a time.

Key definitions: `Manifest.ofJson?`, `Manifest.pathBeside`, `Manifest.record`.
Key theorem: `Manifest.record_eq`.
-/
import Nameplate.Files
import Nameplate.Json.Reader
import Nameplate.Record

namespace Nameplate

/-- The attributes of an artifact. -/
structure Manifest where
  name : Option Text := none
  version : Option Text := none
  attributes : List (Text × Text) := []
  deriving DecidableEq, Repr

/-- The attributes that only an artifact has; blank when absent. -/
structure ArtifactDetails where
  configuration : Text
  product : Text
  copyright : Text
  trademark : Text
  culture : Text
  deriving DecidableEq, Repr

namespace Manifest

/-- The last value of an attribute. -/
def attribute? (mf : Manifest) (key : Text) : Option Text := mf.attributes.reverse.lookup key

/-- A text that may be null. -/
def optionalText? : Json → Option (Option Text)
  | .null => some none
  | .text t => some (some t)
  | _ => none

/-- A member that must be text, under a key that must be text. -/
def textMember? : Option Text × Json → Option (Text × Text)
  | (some key, .text value) => some (key, value)
  | _ => none

/-- An object whose members are texts. -/
def texts? : Json → Option (List (Text × Text))
  | .object members => members.mapM textMember?
  | _ => none

/-- The value of the member `key`: `some none` when there is no such member, and `none` when there
are two or the value is not what `read` accepts. -/
def member? {α : Type} (read : Json → Option α) (key : Text) (members : List (Text × Json)) :
    Option (Option α) :=
  match members.filter fun m => m.1 = key with
  | [] => some none
  | [(_, value)] => (read value).map some
  | _ => none

/-- A member under a key that must be text. -/
def keyed? : Option Text × Json → Option (Text × Json)
  | (some key, value) => some (key, value)
  | (none, _) => none

/-- The manifest a JSON value describes. -/
def ofJson? : Json → Option Manifest
  | .object members => do
    let members ← members.mapM keyed?
    let name ← member? optionalText? "name" members
    let version ← member? optionalText? "version" members
    let attributes ← member? texts? "attributes" members
    some ⟨name.join, version.join, attributes.getD []⟩
  | .array [] => some {}
  | .array [name] => do some { name := ← optionalText? name }
  | .array [name, version] => do
    some { name := ← optionalText? name, version := ← optionalText? version }
  | .array [name, version, attributes] => do
    some ⟨← optionalText? name, ← optionalText? version, ← texts? attributes⟩
  | _ => none

/-- Where the manifest of an artifact is: beside it, or the artifact itself if it is a JSON file. -/
def pathBeside (artifact : Path) : Path :=
  if (Path.extension? artifact).any fun e => Text.upper e = "JSON".toList then artifact
  else artifact ++ ".json"

/-- The manifest a stream delivers. A stream that breaks delivers none. -/
def read? (source : Source) : Option Manifest :=
  match source.failure with
  | some _ => none
  | none => (Json.read? source.bytes).bind ofJson?

/-- A value that must be there and not be blank. -/
def required (origin : Path) (name : Text) (value : Option Text) : Except Failure Text :=
  match value with
  | some v => if Text.isBlank v then .error (.project (.noAttribute name origin)) else .ok v
  | none => .error (.project (.noAttribute name origin))

/-- The attributes beyond the record. -/
def extras (mf : Manifest) : ArtifactDetails :=
  let value (key : Text) : Text := (mf.attribute? key).getD []
  ⟨value "Configuration", value "Product", value "Copyright", value "Trademark", value "Culture"⟩

/-- The version of an artifact: the informational one, or its own where that is blank. -/
def version? (mf : Manifest) : Option Text :=
  match mf.attribute? "InformationalVersion" with
  | some v => if Text.isBlank v then mf.version else some v
  | none => mf.version

/-- The record of an artifact; `origin` is the name it is reported by. -/
def record (mf : Manifest) (origin : Path) : Except Failure Record := do
  let title ← required origin "Title" mf.name
  let description ← required origin "Description" (mf.attribute? "Description")
  let company ← required origin "Company" (mf.attribute? "Company")
  let version ← required origin "Version" mf.version?
  return ⟨title, description, company, version⟩

/-- The record of an artifact with nothing required. -/
def draft (mf : Manifest) : Record where
  title := mf.name.getD []
  description := (mf.attribute? "Description").getD []
  company := (mf.attribute? "Company").getD []
  version := mf.version?.getD []

theorem required_eq (origin : Path) (name : Text) (value : Option Text) :
    required origin name value =
      if Text.isBlank (value.getD []) then .error (.project (.noAttribute name origin))
      else .ok (value.getD []) := by
  cases value with
  | none => simp [required, Text.isBlank]
  | some v => rfl

/-- **What an artifact is required to have is what a complete record has.** The record is the
draft, unless the draft leaves a field blank; then the first such field is reported. -/
theorem record_eq (mf : Manifest) (origin : Path) :
    mf.record origin =
      match mf.draft.missing with
      | [] => .ok mf.draft
      | name :: _ => .error (.project (.noAttribute name origin)) := by
  simp only [record, required_eq, draft, Record.missing, Record.fields]
  generalize mf.name.getD [] = title, (mf.attribute? "Description").getD [] = description,
    (mf.attribute? "Company").getD [] = company, mf.version?.getD [] = version
  cases ht : Text.isBlank title <;> cases hd : Text.isBlank description <;>
    cases hc : Text.isBlank company <;> cases hv : Text.isBlank version <;>
    simp [ht, hd, hc, hv, bind, Except.bind, pure, Except.pure]

end Manifest

variable {m : Type → Type} [Monad m] [FileAccess m]

/-- The manifest of an artifact. -/
def readManifest (artifact : Path) : ExceptT Failure m Manifest := do
  let path := Manifest.pathBeside artifact
  let source ← openFile path
  match Manifest.read? source with
  | some mf => return mf
  | none =>
    throw ((Failure.malformed "JSON error" "the document is not an artifact manifest").inContext
      ("Failed to parse " ++ path))

/-- The record and the other attributes of an artifact. -/
def readArtifact (artifact : Path) : ExceptT Failure m (Record × ArtifactDetails) := do
  let mf ← readManifest artifact
  let record ← ExceptT.mk (pure (mf.record artifact))
  return (record, mf.extras)

end Nameplate
