/-
# A file tree in memory

A `Tree` holds files and directories by the names that lead to them from the
root, and a working directory, from which relative paths are seen. A path is
followed name by name: every name but the last must lead to a directory, `..`
leads back, and an empty name or `.` stays. What fails is told in the words of
the system.

Writing a file makes the directories above it where they are wanting.

Key definitions: `Tree.locate`, `Tree.makeDirectories`, `Tree.write`.
-/
import Nameplate.Files

namespace Nameplate

/-- What is at a place of a tree. -/
inductive Node where
  | directory
  | file (content : Bytes)
  deriving DecidableEq, Repr

/-- Files and directories, by the names that lead to them. -/
structure Tree where
  nodes : List (List Text × Node) := []
  /-- The working directory. -/
  cwd : List Text := []
  deriving DecidableEq, Repr

namespace Tree

/-- Why the system refuses an operation. -/
inductive Fault where
  | noEntry
  | alreadyThere
  | notDirectory
  | isDirectory
  | nameTooLong
  | nulInName
  deriving DecidableEq, Repr

/-- The words of the system. -/
def Fault.message : Fault → Text
  | .noEntry => "No such file or directory (os error 2)"
  | .alreadyThere => "File exists (os error 17)"
  | .notDirectory => "Not a directory (os error 20)"
  | .isDirectory => "Is a directory (os error 21)"
  | .nameTooLong => "File name too long (os error 36)"
  | .nulInName => "file name contained an unexpected NUL byte"

/-- The greatest number of bytes in a name. -/
def nameLimit : Nat := 255

/-- The greatest number of bytes in a path. -/
def pathLimit : Nat := 4095

/-- What the names lead to; the root is always there. -/
def node? (t : Tree) (names : List Text) : Option Node :=
  if names = [] then some .directory else t.nodes.lookup names

/-- Nodes with `node` at the place the names lead to. -/
def putNode (names : List Text) (node : Node) : List (List Text × Node) → List (List Text × Node)
  | [] => [(names, node)]
  | (n, old) :: rest => if n = names then (n, node) :: rest else (n, old) :: putNode names node rest

/-- The tree with `node` at the place the names lead to. -/
def put (t : Tree) (names : List Text) (node : Node) : Tree :=
  { t with nodes := putNode names node t.nodes }

/-- The files of the tree. -/
def files (t : Tree) : List (List Text × Bytes) :=
  t.nodes.filterMap fun (names, node) =>
    match node with
    | .file content => some (names, content)
    | .directory => none

/-- Follows one name further. -/
def enter (t : Tree) (names : List Text) (name : Text) : Except Fault (List Text) :=
  match t.node? names with
  | none => .error .noEntry
  | some (.file _) => .error .notDirectory
  | some .directory =>
    if name = [] ∨ name = ['.'] then .ok names
    else if name = ['.', '.'] then .ok names.dropLast
    else if nameLimit < Text.byteLength name then .error .nameTooLong
    else .ok (names ++ [name])

/-- The names a path leads to. All but the last of them lead to directories; nothing need be at
the last. -/
def locate (t : Tree) (path : Path) : Except Fault (List Text) :=
  if '\x00' ∈ path then .error .nulInName
  else if path = [] then .error .noEntry
  else if pathLimit < Text.byteLength path then .error .nameTooLong
  else (path.splitOn '/').foldlM t.enter (if Path.isAbsolute path then [] else t.cwd)

/-- What is at a path. -/
def at? (t : Tree) (path : Path) : Except Fault Node := do
  match t.node? (← t.locate path) with
  | some node => return node
  | none => throw .noEntry

/-- Whether a file is at the path. -/
def isFile (t : Tree) (path : Path) : Bool :=
  match t.at? path with
  | .ok (.file _) => true
  | _ => false

/-- Whether a directory is at the path. -/
def isDirectory (t : Tree) (path : Path) : Bool :=
  match t.at? path with
  | .ok .directory => true
  | _ => false

/-- The contents of the file at the path. -/
def read (t : Tree) (path : Path) : Except Fault Bytes := do
  match ← t.at? path with
  | .file content => return content
  | .directory => throw .isDirectory

/-- Changes of a tree; what is done before a fault stays done. -/
abbrev Change := ExceptT Fault (StateM Tree)

/-- A path without the separators it ends in. -/
def dropSeparators (path : Path) : Path :=
  match (path.reverse.dropWhile (· = '/')).reverse with
  | [] => path.take 1
  | shorter => shorter

/-- Makes a directory in one that is there. -/
def makeDirectory (path : Path) : Change Unit := do
  let t ← get
  let names ← ExceptT.mk (pure (t.locate (dropSeparators path)))
  match t.node? names with
  | some _ => throw .alreadyThere
  | none => set (t.put names .directory)

/-- Goes on from a fault in making a directory if the directory is there. -/
def acceptDirectory (path : Path) (fault : Fault) : Change Unit := do
  if !(← get).isDirectory path then throw fault

/-- Makes a directory and those above it. The number bounds the directories. -/
def makeDirectoriesFor : Nat → Path → Change Unit
  | 0, _ => throw .noEntry
  | n + 1, path => do
    if path = [] then return ()
    tryCatch (makeDirectory path) fun
      | .noEntry =>
        match Path.parent? path with
        | none => throw .noEntry
        | some parent => do
          makeDirectoriesFor n parent
          tryCatch (makeDirectory path) (acceptDirectory path)
      | fault => acceptDirectory path fault

/-- Makes a directory and those above it. -/
def makeDirectories (path : Path) : Change Unit := makeDirectoriesFor (path.length + 1) path

/-- Writes a file, and makes the directories above it. -/
def write (path : Path) (content : Bytes) : Change Unit := do
  makeDirectories ((Path.parent? path).getD [])
  let t ← get
  let names ← ExceptT.mk (pure (t.locate path))
  match t.node? names with
  | some .directory => throw .isDirectory
  | _ => set (t.put names (.file content))

instance : FileAccess (StateM Tree) where
  isFile path := return (← get).isFile path
  isDirectory path := return (← get).isDirectory path
  openAt path := return ((← get).read path).map (⟨·, none⟩) |>.mapError Fault.message
  writeAt path content := return (← (write path content).run).mapError Fault.message

end Tree
end Nameplate
