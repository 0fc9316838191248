/-
# Inputs of a command

Each input of a command comes from its flag or, where the flag is absent, from
the settings. A path of the settings is seen from their directory, a path on
the command line from the working directory; the path of an info file is seen
from the project directory wherever it comes from. Some inputs may be absent
altogether; the absence of any other is a failure that names it.

Key definitions: `Settings.projectDir`, `Settings.language`,
`Settings.infoPath`.
-/
import Nameplate.Settings

namespace Nameplate
namespace Settings

/-- A path of the settings, seen from their directory. -/
def fromBase (s : Settings) (path : Path) : Path := Path.join s.baseDir path

/-- An input that must be there. -/
def required {α : Type} (field : Text) (value : Option α) : Except Failure α :=
  match value with
  | some v => .ok v
  | none => .error (.settings (.missing field))

/-- The project directory. -/
def projectDir (s : Settings) (flag : Option Path) : Except Failure Path :=
  required "project_dir" (flag.or (s.project.dir.map s.fromBase))

/-- The language of the project. -/
def language (s : Settings) (flag : Option Text) : Except Failure Language := do
  Language.parse (← required "language" (flag.or s.project.language))

/-- What fills the placeholder of a version. -/
def versionPart (s : Settings) (flag : Option Text) : Option Text := flag.or s.project.versionPart

/-- The info file, when it is not the language's own. -/
def infoPath (s : Settings) (flag : Option Path) : Option Path := flag.or s.project.infoPath

/-- The solution directory. -/
def solutionDir (s : Settings) (flag : Option Path) : Except Failure Path :=
  required "solution_dir" (flag.or (s.project.solutionDir.map s.fromBase))

/-- The package directory. -/
def packageDir (s : Settings) (flag : Option Path) : Except Failure Path :=
  required "package_dir" (flag.or (s.package.packageDir.map s.fromBase))

/-- The build artifact. -/
def outputPath (s : Settings) (flag : Option Path) : Except Failure Path :=
  required "output_path" (flag.or (s.package.outputPath.map s.fromBase))

/-- The build configuration. -/
def configuration (s : Settings) (flag : Option Text) : Option Text :=
  flag.or s.package.configuration

end Settings
end Nameplate
