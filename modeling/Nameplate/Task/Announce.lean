/-
# Announcing a version to Sonar

The task sets the project version in the properties file of a project. A file
without an entry for it is left as it is, and that is said.

Key definition: `AnnounceTask.run`.
-/
import Nameplate.Settings.Input
import Nameplate.Sonar
import Nameplate.Task.Output

namespace Nameplate

/-- What the command line says of the task. -/
structure AnnounceTask where
  solutionDir : Option Path := none
  projectDir : Option Path := none
  version : Text
  json : Bool := false
  deriving DecidableEq, Repr

namespace AnnounceTask

/-- The outcome as a report. -/
def report (r : Sonar.Report) : List (Text × ReportValue) :=
  [("PropertiesPath", .text r.path), ("Version", .text r.version), ("Replaced", .count r.replaced)]

/-- The outcome for people. -/
def summary (r : Sonar.Report) : List Text :=
  if r.replaced = 0 then ["⚠️  No " ++ Sonar.versionKey ++ " entry in " ++ r.path]
  else ["✅ Set " ++ Sonar.versionKey ++ " to " ++ r.version ++ " in " ++ r.path]

variable {m : Type → Type} [Monad m] [FileAccess m]

/-- Sets the project version in the properties file of a project. -/
def run (t : AnnounceTask) (s : Settings) : ExceptT Failure m Output := do
  let solutionDir ← s.solutionDir t.solutionDir
  let projectDir ← s.projectDir t.projectDir
  let r ← Sonar.stamp solutionDir projectDir t.version
  return { text := if t.json then Output.json (report r) else Output.lines (summary r) }

end AnnounceTask
end Nameplate
