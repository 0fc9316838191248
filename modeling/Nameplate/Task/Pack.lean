/-
# Describing a package

The task makes the package document of a project. The files and dependencies
on the command line take the place of those in the settings, not their part.

Key definitions: `PackTask.request`, `PackTask.run`.
-/
import Nameplate.Nuspec
import Nameplate.Settings.Input
import Nameplate.Task.Output

namespace Nameplate

/-- What the command line says of the task. -/
structure PackTask where
  packageDir : Option Path := none
  projectDir : Option Path := none
  outputPath : Option Path := none
  language : Option Text := none
  configuration : Option Text := none
  overrideDefaultFiles : Bool := false
  files : List FileEntry := []
  dependencies : List Dependency := []
  json : Bool := false
  deriving DecidableEq, Repr

namespace PackTask

/-- What goes into the package. -/
def request (t : PackTask) (s : Settings) : Except Failure PackageRequest := do
  let packageDir ← s.packageDir t.packageDir
  let projectDir ← s.projectDir t.projectDir
  let outputPath ← s.outputPath t.outputPath
  let language ← s.language t.language
  return {
    packageDir, projectDir, outputPath, language
    configuration := s.configuration t.configuration
    overrideDefaultFiles := t.overrideDefaultFiles || s.package.overrideDefaultFiles
    files := if t.files = [] then s.package.files else t.files
    dependencies := if t.dependencies = [] then s.package.dependencies else t.dependencies }

/-- The outcome as a report. -/
def report (r : PackageReport) : List (Text × ReportValue) :=
  [("NuspecFile", .text r.path), ("Id", .text r.id), ("Version", .text r.version),
    ("FileCount", .count r.fileCount), ("DependencyCount", .count r.dependencyCount)]

/-- The outcome for people. -/
def summary (r : PackageReport) : List Text :=
  ["📦 Package: " ++ r.id ++ ' ' :: r.version,
    "   Files:        " ++ Text.ofNat r.fileCount,
    "   Dependencies: " ++ Text.ofNat r.dependencyCount,
    [],
    "✅ Generated " ++ r.path]

variable {m : Type → Type} [Monad m] [FileAccess m]

/-- Makes the package document of a project. -/
def run (t : PackTask) (s : Settings) : ExceptT Failure m Output := do
  let r ← makePackage (← t.request s)
  return { text := if t.json then Output.json (report r) else Output.lines (summary r) }

end PackTask
end Nameplate
