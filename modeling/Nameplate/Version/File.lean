/-
# Version files

The file whose versions are stamped is the info file of the project, or
another one that is named. Stamping reads it; only `writeStamped` changes it,
and a dry run leaves that out.

Key definitions: `stampFile`, `writeStamped`, `stampProject`.
-/
import Nameplate.Record.Metadata
import Nameplate.Version.Stamping

namespace Nameplate

/-- Which file is to be stamped. -/
structure StampTarget where
  projectDir : Path
  language : Language
  /-- The file, seen from the project directory, when it is not the language's info file. -/
  versionPath : Option Path := none
  deriving DecidableEq, Repr

/-- The file to be stamped. -/
def StampTarget.path (target : StampTarget) : Path :=
  target.language.profile.fileIn target.projectDir target.versionPath

variable {m : Type → Type} [Monad m] [FileAccess m]

/-- The file of a project after stamping. Nothing is written. -/
def stampFile (target : StampTarget) (options : StampOptions) : ExceptT Failure m Stamped := do
  let source ← openFile target.path
  ExceptT.mk (pure (stampSource target.language.profile options target.path source))

/-- Writes a stamped file back. -/
def writeStamped (s : Stamped) : ExceptT Failure m Unit := writeFile s.path s.content

/-- Stamps the file of a project and writes it back, unless it is a dry run. -/
def stampProject (target : StampTarget) (options : StampOptions) (dryRun : Bool) :
    ExceptT Failure m Stamped := do
  let stamped ← stampFile target options
  if !dryRun then writeStamped stamped
  return stamped

end Nameplate
