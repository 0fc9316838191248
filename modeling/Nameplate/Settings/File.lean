/-
# Settings files

The settings come from the file the user names, or from the first of three
places in the working directory that holds one, or, where there is none, are
empty. What is wrong with the file is reported with its path.

Key definitions: `Settings.ofFile`, `loadSettings`, `discoverSettings`.
-/
import Nameplate.Files
import Nameplate.Settings

namespace Nameplate
namespace Settings

/-- The places where a settings file is looked for, in order. -/
def candidates (dir : Path) : List Path :=
  [Path.join dir "stamp.toml", Path.join dir ".stamp.toml",
    Path.join (Path.join dir ".config") "stamp.toml"]

/-- The settings in the text of a file: it must describe settings and pass the check. -/
def ofFile (path : Path) (t : Text) : Except Failure Settings := do
  let s ← (read t).mapError (Failure.inContext ("Failed to parse config from " ++ path))
  let s := { s with baseDir := (Path.parent? path).getD [] }
  s.check.mapError (Failure.inContext ("Invalid configuration in " ++ path))
  return s

end Settings

variable {m : Type → Type} [Monad m] [FileAccess m]

/-- The settings in the file at the path. -/
def loadSettings (path : Path) : ExceptT Failure m Settings := do
  if ← FileAccess.isFile path then
    let t ← (readText path).adapt (Failure.inContext ("Failed to read config from " ++ path))
    Settings.ofFile path t
  else throw (.settings (.notFound path))

/-- The settings of a run in the directory `dir`; `given` is the file the user names. -/
def discoverSettings (dir : Path) (given : Option Path) : ExceptT Failure m Settings := do
  match given with
  | some path => loadSettings path
  | none =>
    match ← (Settings.candidates dir).findM? (m := m) FileAccess.isFile with
    | some path => loadSettings path
    | none => return {}

end Nameplate
