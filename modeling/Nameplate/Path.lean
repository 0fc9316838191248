/-
# Paths

A path is a text; nothing in it is normalised when it is shown. Two paths name
the same place when their components agree: repeated and trailing separators
and `.` components do not count, except that a leading `.` does, and `..` is
not resolved.

Key definitions: `Path.join`, `Path.components`, `Path.parent?`,
`Path.extension?`.
-/
import Nameplate.Text

namespace Nameplate

/-- The name of a file or directory. -/
abbrev Path := Text

namespace Path

/-- Whether the path starts at the root. -/
def isAbsolute (p : Path) : Bool := p.head? = some '/'

/-- `p` seen from the directory `dir`: an absolute `p` stands for itself; otherwise one separator
goes between the two, unless `dir` is empty or ends in one. -/
def join (dir p : Path) : Path :=
  if isAbsolute p then p
  else if dir = [] || dir.getLast? = some '/' then dir ++ p
  else dir ++ '/' :: p

theorem join_of_isAbsolute (dir : Path) {p : Path} (h : isAbsolute p = true) : join dir p = p := by
  simp [join, h]

/-- A component of a path. -/
inductive Component where
  | root
  /-- A `.` at the beginning of a relative path. -/
  | here
  | up
  | name (text : Text)
  deriving DecidableEq, Repr

/-- The component a piece between separators stands for, anywhere but at the beginning. -/
def component? (piece : Text) : Option Component :=
  if piece = [] || piece = ['.'] then none
  else if piece = ['.', '.'] then some .up
  else some (.name piece)

/-- What a path begins with, other than a name. -/
def lead (p : Path) : List Component :=
  if isAbsolute p then [.root]
  else if p = ['.'] || ['.', '/'].isPrefixOf p then [.here]
  else []

/-- The components of a path. -/
def components (p : Path) : List Component := lead p ++ (p.splitOn '/').filterMap component?

/-- Drops separators and `.` components from the end of a path given in reverse, but not its
first character. -/
def dropTrailing : List Char → List Char
  | '/' :: c :: rest => dropTrailing (c :: rest)
  | '.' :: '/' :: rest => dropTrailing ('/' :: rest)
  | p => p
  termination_by p => p.length

/-- The path without its last component; `none` when there is none to drop, as at the root. -/
def parent? (p : Path) : Option Path :=
  match dropTrailing p.reverse with
  | [] => none
  | ['/'] => none
  | q => some (dropTrailing (q.dropWhile (· ≠ '/'))).reverse

/-- The last component, if it is a name. -/
def fileName? (p : Path) : Option Text :=
  match (components p).getLast? with
  | some (.name n) => some n
  | _ => none

/-- What follows the last dot of a name; a name has no extension when it has no dot or the only
one comes first. -/
def extension? (p : Path) : Option Text :=
  match fileName? p with
  | none => none
  | some n =>
    let stem := (n.reverse.dropWhile (· ≠ '.')).drop 1
    if stem = [] then none else some (n.reverse.takeWhile (· ≠ '.')).reverse

end Path
end Nameplate
