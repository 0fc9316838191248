/-
# Describing a project

The task shows the metadata of a project. Metadata that lacks fields is shown
too, and then the task fails.

Key definitions: `DescribeTask.request`, `DescribeTask.run`.
-/
import Nameplate.Record.Metadata
import Nameplate.Settings.Input
import Nameplate.Task.Output

namespace Nameplate

/-- What the command line says of the task. -/
structure DescribeTask where
  projectDir : Option Path := none
  language : Option Text := none
  infoPath : Option Path := none
  artifact : Option Path := none
  json : Bool := false
  deriving DecidableEq, Repr

namespace DescribeTask

/-- Where the task looks for metadata. -/
def request (t : DescribeTask) (s : Settings) : Except Failure MetadataRequest := do
  let projectDir ← s.projectDir t.projectDir
  let language ← s.language t.language
  return { projectDir, language, infoPath := s.infoPath t.infoPath, artifact := t.artifact }

/-- The attributes beyond the record, by name. -/
def extras (e : Metadata) : List (Text × Text) :=
  match e.extras with
  | none => []
  | some a =>
    [("Configuration", a.configuration), ("Product", a.product), ("Copyright", a.copyright),
      ("Trademark", a.trademark), ("Culture", a.culture)]

/-- The metadata as a report. -/
def report (e : Metadata) : List (Text × ReportValue) :=
  ("Success", .bool e.record.isComplete) :: ("InfoPath", .text e.path) ::
    (e.record.fields ++ extras e).map fun (name, value) => (name, .text value)

/-- A name with a colon, in a column of at least `width` characters. -/
def label (width : Nat) (name : Text) : Text :=
  name ++ ':' :: List.replicate (width - (name.length + 1)) ' '

/-- A field on a line of its own. -/
def fieldLine (field : Text × Text) : Text := "   " ++ label 13 field.1 ++ field.2

/-- The metadata for people. Attributes beyond the record are shown where they are not empty. -/
def summary (task : Text) (e : Metadata) : List Text :=
  let fields := e.record.fields ++ (extras e).filter fun field => field.2 ≠ []
  let closing : List Text :=
    if e.record.isComplete then [[], "✅ Project information extracted"] else [[]]
  ("📄 " ++ task ++ " info: " ++ e.path) :: fields.map fieldLine ++ closing

/-- What the task prints of the metadata, and whether it fails. -/
def output (t : DescribeTask) (language : Language) (e : Metadata) : Output where
  text := if t.json then Output.json (report e) else Output.lines (summary language.profile.task e)
  failure :=
    match e.ensureComplete with
    | .ok _ => none
    | .error failure => some failure

variable {m : Type → Type} [Monad m] [FileAccess m]

/-- Shows the metadata of a project. -/
def run (t : DescribeTask) (s : Settings) : ExceptT Failure m Output := do
  let request ← t.request s
  return t.output request.language (← findMetadata request)

end DescribeTask
end Nameplate
