/-
# Entries of a package

The user names files and dependencies of a package as `SRC[=TYPE]` and
`ID=VERSION`. The first `=` divides an entry; blanks around its sides do not
count, and neither side may be blank. A file without a type is content.

Key definitions: `FileEntry.parse`, `Dependency.parse`.
-/
import Nameplate.Text

namespace Nameplate

/-- A file or directory to be packaged, and the folder of the package it goes to. -/
structure FileEntry where
  src : Text
  fileType : Text
  deriving DecidableEq, Repr

/-- A package that is needed. -/
structure Dependency where
  id : Text
  version : Text
  deriving DecidableEq, Repr

/-- The folder of files without a type. -/
def contentFolder : Text := "content"

/-- The file an entry names, or what is wrong with the entry. -/
def FileEntry.parse (entry : Text) : Except Text FileEntry :=
  let (src, fileType) :=
    match Text.splitAtFirst '=' entry with
    | some (src, fileType) => (Text.trim src, Text.trim fileType)
    | none => (Text.trim entry, contentFolder)
  if src = [] ∨ fileType = [] then
    .error ("invalid file entry '" ++ entry ++ "', expected SRC[=TYPE]")
  else .ok ⟨src, fileType⟩

/-- The dependency an entry names, or what is wrong with the entry. -/
def Dependency.parse (entry : Text) : Except Text Dependency :=
  match Text.splitAtFirst '=' entry with
  | some (id, version) =>
    if Text.isBlank id || Text.isBlank version then
      .error ("invalid dependency '" ++ entry ++ "', expected ID=VERSION")
    else .ok ⟨Text.trim id, Text.trim version⟩
  | none => .error ("invalid dependency '" ++ entry ++ "', expected ID=VERSION")

/-- Whether a dependency names a package and a version. -/
def Dependency.isComplete (d : Dependency) : Bool := !Text.isBlank d.id && !Text.isBlank d.version

end Nameplate
