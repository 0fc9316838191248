/-
# The file service

The operations of the library reach files through a `FileAccess` only: what
is a file, what is a directory, the contents of a file as a stream, and
writing a file as a whole. They are written for any monad with such a service;
`Nameplate.Files.Store` and `Nameplate.Files.Tree` serve from memory.

A file that cannot be opened counts as not found. A write either replaces the
contents or fails.

Key definitions: `FileAccess`, `openFile`, `openStream`, `readText`, `writeFile`.
-/
import Nameplate.Failure

namespace Nameplate

/-- Access to files. -/
class FileAccess (m : Type → Type) where
  /-- Whether a file is at the path. -/
  isFile : Path → m Bool
  /-- Whether a directory is at the path. -/
  isDirectory : Path → m Bool
  /-- Opens the file at the path, or says in words why it cannot. -/
  openAt : Path → m (Except Text Source)
  /-- Replaces the contents of the file at the path, or says in words why it cannot. -/
  writeAt : Path → Bytes → m (Except Text Unit)

variable {m : Type → Type} [Monad m] [FileAccess m]

/-- Operations that can fail reach the files of the monad below. -/
instance {ε : Type} : FileAccess (ExceptT ε m) where
  isFile path := ExceptT.lift (FileAccess.isFile path)
  isDirectory path := ExceptT.lift (FileAccess.isDirectory path)
  openAt path := ExceptT.lift (FileAccess.openAt path)
  writeAt path content := ExceptT.lift (FileAccess.writeAt path content)

/-- The file at the path. -/
def openFile (path : Path) : ExceptT Failure m Source := do
  if ← FileAccess.isFile path then
    match ← FileAccess.openAt path with
    | .ok source => return source
    | .error _ => throw (.project (.notFound path))
  else throw (.project (.notFound path))

/-- The stream of the file at the path. -/
def openStream (path : Path) : ExceptT Failure m Source := do
  match ← FileAccess.openAt path with
  | .error reason => throw (.system (.system reason))
  | .ok source => return source

/-- The file at the path as one text. -/
def readText (path : Path) : ExceptT Failure m Text := do
  liftM ((← openStream path).text.mapError Failure.system)

/-- Writes a text to the file at the path. -/
def writeFile (path : Path) (content : Text) : ExceptT Failure m Unit := do
  match ← FileAccess.writeAt path (Utf8.encode content) with
  | .ok () => return ()
  | .error text => throw (.system (.system text))

end Nameplate
