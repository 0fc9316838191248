/-
# Sonar properties

A properties file holds lines `key=value`. Stamping it puts the version after
the first `=` of every line that mentions the project version and has one, and
changes nothing else. The file is looked for in the solution directory first,
then in the project directory.

Key definitions: `Sonar.stampSource`, `Sonar.find`, `Sonar.stampFile`,
`Sonar.stamp`.
-/
import Nameplate.Files

namespace Nameplate
namespace Sonar

/-- The name of a properties file. -/
def fileName : Path := "sonar-project.properties"

/-- The key of the project version. -/
def versionKey : Text := "sonar.projectVersion"

/-- The line with the version, when it is one that takes it. -/
def stampText? (version line : Text) : Option Text :=
  match Text.splitAtFirst '=' line with
  | some (key, _) => if Text.contains versionKey line then some (key ++ '=' :: version) else none
  | none => none

/-- The line after stamping. -/
def stampLine (version : Text) (l : Line) : Line :=
  { l with text := (stampText? version l.text).getD l.text }

/-- The lines after stamping, and how many took the version. -/
def stampLines (version : Text) (ls : List Line) : List Line × Nat :=
  (ls.map (stampLine version), ls.countP fun l => (stampText? version l.text).isSome)

/-- The contents of a properties file after stamping, and how many lines took the version. -/
def stampSource (version : Text) (source : Source) : Except ReadFault (Text × Nat) :=
  let reading := source.strict
  match reading.failure with
  | some fault => .error fault
  | none =>
    let (lines, replaced) := stampLines version reading.lines
    .ok (Line.join lines, replaced)

/-- A stream that breaks is never stamped. -/
theorem stampSource_of_failure (version : Text) {s : Source} (h : s.failure.isSome) :
    ∃ fault, stampSource version s = .error fault := by
  obtain ⟨fault, hf⟩ := Option.isSome_iff_exists.1 (Source.strict_failure_isSome h)
  exact ⟨fault, by simp [stampSource, hf]⟩

/-- What was stamped. -/
structure Report where
  path : Path
  version : Text
  replaced : Nat
  deriving DecidableEq, Repr

variable {m : Type → Type} [Monad m] [FileAccess m]

/-- The properties file of a project. -/
def find (solutionDir projectDir : Path) : ExceptT Failure m Path := do
  let inSolution := Path.join solutionDir fileName
  let inProject := Path.join projectDir fileName
  if ← FileAccess.isFile inSolution then return inSolution
  if ← FileAccess.isFile inProject then return inProject
  throw (.project (.notFound inSolution))

/-- The properties file of a project, with its contents after stamping and how many lines took the
version. Nothing is written. -/
def stampFile (solutionDir projectDir : Path) (version : Text) :
    ExceptT Failure m (Path × Text × Nat) := do
  let path ← find solutionDir projectDir
  let source ← openFile path
  match stampSource version source with
  | .error fault => throw (.system fault)
  | .ok (content, replaced) => return (path, content, replaced)

/-- Stamps the properties file of a project. -/
def stamp (solutionDir projectDir : Path) (version : Text) : ExceptT Failure m Report := do
  let (path, content, replaced) ← stampFile solutionDir projectDir version
  writeFile path content
  return ⟨path, version, replaced⟩

end Sonar
end Nameplate
