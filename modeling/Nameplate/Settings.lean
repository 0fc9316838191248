/-
# Settings

A settings file gives the values a command takes where the command line gives
none. It has a section for the project and one for the package, and everything
else in it is passed over. A value that is not of the kind its key demands
makes the whole file wrong, and so does a file or a dependency of the package
that lacks what it must have.

A section, a file and a dependency are records. A record is written as a table
by its keys, or as an array of its values in the order of its fields, where
those at the end may be left out and those beyond the last field do not count;
a moment counts as a record none of whose fields is given.

Key definitions: `Settings`, `Toml.record?`, `Settings.ofToml?`,
`Settings.read`, `Settings.check`.
-/
import Nameplate.Failure
import Nameplate.Nuspec.Entry
import Nameplate.Toml.Reader

namespace Nameplate

/-- What the settings say of the project. -/
structure ProjectSettings where
  dir : Option Path := none
  language : Option Text := none
  /-- What fills the placeholder of a version. -/
  versionPart : Option Text := none
  /-- The info file, seen from the project directory. -/
  infoPath : Option Path := none
  solutionDir : Option Path := none
  deriving DecidableEq, Repr

/-- What the settings say of the package. -/
structure PackageSettings where
  packageDir : Option Path := none
  /-- The build artifact. -/
  outputPath : Option Path := none
  configuration : Option Text := none
  overrideDefaultFiles : Bool := false
  files : List FileEntry := []
  dependencies : List Dependency := []
  deriving DecidableEq, Repr

/-- The settings of a run. -/
structure Settings where
  project : ProjectSettings := {}
  package : PackageSettings := {}
  /-- The directory of the settings file, from which its paths are seen. -/
  baseDir : Path := []
  deriving DecidableEq, Repr

namespace Toml

/-- What a value gives to the fields of a record, when it can be one. -/
def record? (fields : List Text) : Toml → Option (List (Text × Toml))
  | .table members => some members
  | .array items => some (fields.zip items)
  | .moment => some []
  | _ => none

/-- A text. -/
def text? : Toml → Option Text
  | .text t => some t
  | _ => none

/-- A truth value. -/
def bool? : Toml → Option Bool
  | .bool b => some b
  | _ => none

/-- An array of values of one kind. -/
def list? {α : Type} (read : Toml → Option α) : Toml → Option (List α)
  | .array items => items.mapM read
  | _ => none

/-- A field that may be left out. -/
def optional? {α : Type} (read : Toml → Option α) (given : List (Text × Toml)) (field : Text) :
    Option (Option α) :=
  match given.lookup field with
  | none => some none
  | some value => (read value).map some

/-- A field that must be there. -/
def required? {α : Type} (read : Toml → Option α) (given : List (Text × Toml)) (field : Text) :
    Option α :=
  (given.lookup field).bind read

end Toml

/-- The file a value describes; a file without a type is content. -/
def FileEntry.ofToml? (value : Toml) : Option FileEntry := do
  let given ← value.record? ["src", "file_type"]
  let src ← Toml.required? Toml.text? given "src"
  let fileType ← Toml.optional? Toml.text? given "file_type"
  return ⟨src, fileType.getD contentFolder⟩

/-- The dependency a value describes. -/
def Dependency.ofToml? (value : Toml) : Option Dependency := do
  let given ← value.record? ["id", "version"]
  return ⟨← Toml.required? Toml.text? given "id", ← Toml.required? Toml.text? given "version"⟩

/-- The project section a value describes. -/
def ProjectSettings.ofToml? (value : Toml) : Option ProjectSettings := do
  let given ← value.record? ["dir", "language", "version_part", "info_path", "solution_dir"]
  return {
    dir := ← Toml.optional? Toml.text? given "dir"
    language := ← Toml.optional? Toml.text? given "language"
    versionPart := ← Toml.optional? Toml.text? given "version_part"
    infoPath := ← Toml.optional? Toml.text? given "info_path"
    solutionDir := ← Toml.optional? Toml.text? given "solution_dir" }

/-- The package section a value describes. -/
def PackageSettings.ofToml? (value : Toml) : Option PackageSettings := do
  let given ← value.record?
    ["package_dir", "output_path", "configuration", "override_default_files", "files", "dependencies"]
  let files ← Toml.optional? (Toml.list? FileEntry.ofToml?) given "files"
  let dependencies ← Toml.optional? (Toml.list? Dependency.ofToml?) given "dependencies"
  return {
    packageDir := ← Toml.optional? Toml.text? given "package_dir"
    outputPath := ← Toml.optional? Toml.text? given "output_path"
    configuration := ← Toml.optional? Toml.text? given "configuration"
    overrideDefaultFiles := (← Toml.optional? Toml.bool? given "override_default_files").getD false
    files := files.getD []
    dependencies := dependencies.getD [] }

namespace Settings

/-- The settings a document describes. -/
def ofToml? (value : Toml) : Option Settings := do
  let given ← value.record? ["project", "nuspec"]
  let project ← Toml.optional? ProjectSettings.ofToml? given "project"
  let package ← Toml.optional? PackageSettings.ofToml? given "nuspec"
  return { project := project.getD {}, package := package.getD {} }

/-- The settings in a text. -/
def read (t : Text) : Except Failure Settings :=
  match (Toml.read? t).bind ofToml? with
  | some s => .ok s
  | none => .error (.malformed "TOML deserialization error" "the document does not describe settings")

/-- Refuses settings with an unknown language or a dependency that lacks its id or version. -/
def check (s : Settings) : Except Failure Unit := do
  if let some name := s.project.language then
    let _ ← Language.parse name
  if s.package.dependencies.all Dependency.isComplete then return ()
  throw (.note "Nuspec dependency with empty id or version" none
    (some "Each entry in [nuspec] dependencies needs both `id` and `version`".toList))

end Settings
end Nameplate
