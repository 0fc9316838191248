/-
# Stamping a project

The task stamps the version file of a project and tells the version and the
next ones. A dry run shows what would change and writes nothing.

Key definitions: `StampTask.target`, `StampTask.options`, `StampTask.run`.
-/
import Nameplate.Diff.Unified
import Nameplate.Settings.Input
import Nameplate.Task.Output
import Nameplate.Version.File

namespace Nameplate

/-- What the command line says of the task. -/
structure StampTask where
  projectDir : Option Path := none
  language : Option Text := none
  versionPath : Option Path := none
  versionPart : Option Text := none
  isRelease : Bool := false
  releaseVersion : Option Text := none
  newDevelopment : Option Text := none
  dryRun : Bool := false
  json : Bool := false
  deriving DecidableEq, Repr

namespace StampTask

/-- The file to be stamped. -/
def target (t : StampTask) (s : Settings) : Except Failure StampTarget := do
  let projectDir ← s.projectDir t.projectDir
  let language ← s.language t.language
  return { projectDir, language, versionPath := s.infoPath t.versionPath }

/-- How the file is stamped. -/
def options (t : StampTask) (s : Settings) (now : Moment) : StampOptions where
  versionPart := s.versionPart t.versionPart
  isRelease := t.isRelease
  releaseVersion := t.releaseVersion
  newDevelopment := t.newDevelopment
  now

/-- The outcome as a report. -/
def report (t : StampTask) (s : Stamped) : List (Text × ReportValue) :=
  [("Version", .text s.version), ("IsSemanticVersion", .bool s.isSemantic),
    ("NextReleaseVersion", .text s.next.release),
    ("NextNewDevelopmentVersion", .text s.next.development), ("VersionInfoPath", .text s.path),
    ("OutputFilePath", if t.dryRun then .null else .text s.path), ("DryRun", .bool t.dryRun)]

/-- The outcome for people. -/
def summary (t : StampTask) (s : Stamped) : List Text :=
  ["🏷️  Version:                " ++ s.version,
    "   Semantic:               " ++ Text.ofBool s.isSemantic,
    "   Next release:           " ++ s.next.release,
    "   Next development:       " ++ s.next.development,
    "   Version info file:      " ++ s.path,
    [],
    if t.dryRun then "To write these changes, run again without --dry-run" else "✅ Updated " ++ s.path]

/-- How many unchanged lines are shown around a change. -/
def context : Nat := 1

/-- What would change. -/
def preview (s : Stamped) (current : Text) : Text :=
  if current = s.content then Output.lines ["🔍 Dry-run: " ++ s.path ++ " is already up to date", []]
  else
    Output.lines ["🔍 Dry-run mode (no changes written)", []] ++
      Diff.unified context s.path current s.content ++ ['\n']

/-- The failure of a stream that was opened and cannot be read as a text. -/
def unreadable (path : Path) (fault : ReadFault) : Failure :=
  Failure.inContext ("Failed to read " ++ path) (.system fault)

variable {m : Type → Type} [Monad m] [FileAccess m]

/-- Stamps the version file of a project. -/
def run (t : StampTask) (s : Settings) (now : Moment) : ExceptT Failure m Output := do
  let stamped ← stampProject (← t.target s) (t.options s now) t.dryRun
  if t.json then return { text := Output.json (t.report stamped) }
  let summary := Output.lines (t.summary stamped)
  if !t.dryRun then return { text := summary }
  let source ← openStream stamped.path
  let current ← liftM (source.text.mapError (unreadable stamped.path))
  return { text := preview stamped current ++ summary }

end StampTask
end Nameplate
