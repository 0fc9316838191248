/-
# Files in memory

A `Store` holds files by path, two paths being the same when their components
are. Some paths can be marked: as directories, as files that cannot be opened
or written, and as files whose stream breaks after the last byte. Writing
creates the file where there is none.

Key definitions: `Store.get?`, `Store.put`.
Key theorems: `Store.get?_put_self`, `Store.get?_put_of_ne`.
-/
import Nameplate.Files

namespace Nameplate

/-- Files by the components of their paths, and what is special about some paths. -/
structure Store where
  files : List (List Path.Component × Bytes) := []
  directories : List (List Path.Component) := []
  unreadable : List (List Path.Component) := []
  readOnly : List (List Path.Component) := []
  broken : List (List Path.Component) := []
  deriving DecidableEq, Repr

namespace Store

/-- The contents of the file at a path. -/
def get? (s : Store) (path : Path) : Option Bytes := s.files.lookup (Path.components path)

/-- The store with `content` at a path; the newest contents of a path are found first. -/
def put (s : Store) (path : Path) (content : Bytes) : Store :=
  { s with files := (Path.components path, content) :: s.files }

theorem get?_put_self (s : Store) (path : Path) (content : Bytes) :
    (s.put path content).get? path = some content := by
  simp [put, get?]

/-- A write touches no other file. -/
theorem get?_put_of_ne {s : Store} {path other : Path} (content : Bytes)
    (h : Path.components other ≠ Path.components path) :
    (s.put path content).get? other = s.get? other := by
  have hb : (Path.components other == Path.components path) = false := by simpa using h
  simp [put, get?, List.lookup_cons, hb]

/-- Opens a file of the store. -/
def openAt (s : Store) (path : Path) : Except Text Source :=
  if s.unreadable.contains (Path.components path) then .error "unreadable file"
  else
    match s.get? path with
    | none => .error "no such file"
    | some content =>
      let broken := s.broken.contains (Path.components path)
      .ok ⟨content, if broken then some "broken stream".toList else none⟩

/-- Writes a file of the store. -/
def writeAt (s : Store) (path : Path) (content : Bytes) : Except Text Store :=
  if s.readOnly.contains (Path.components path) then .error "read-only file"
  else .ok (s.put path content)

/-- Whether a path is marked as a directory. -/
def isDirectory (s : Store) (path : Path) : Bool := s.directories.contains (Path.components path)

instance : FileAccess (StateM Store) where
  isFile path := return ((← get).get? path).isSome
  isDirectory path := return (← get).isDirectory path
  openAt path := return (← get).openAt path
  writeAt path content := do
    match (← get).writeAt path content with
    | .ok s => set s; return .ok ()
    | .error text => return .error text

end Store
end Nameplate
