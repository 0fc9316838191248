/-
# TOML values and tables

A TOML value as far as settings need it: numbers and moments are checked and
not kept. A document is a list of statements, each of which defines something
at a path of keys, and `Document.add` says which statements may follow which.

* A value is defined once. Its path may go through tables that dotted keys
  made, or that only lie on the way to a header, never through a table a
  header has opened.
* A header opens a table once; a table that only lies on the way to others
  can still be opened, one that dotted keys made cannot.
* A header in double brackets adds a table to a list, which nothing else may
  define. A path through such a list leads on through its newest table.

Key definitions: `Toml`, `Toml.Entry`, `Toml.assign?`, `Toml.Document.add?`.
-/
import Nameplate.Text

namespace Nameplate

/-- A value of a TOML document. -/
inductive Toml where
  | text (value : Text)
  | bool (value : Bool)
  | number
  /-- A date, a time or both. -/
  | moment
  | array (items : List Toml)
  | table (members : List (Text × Toml))
  deriving Repr

namespace Toml

/-- How a table came to be. -/
inductive Origin where
  /-- It lies on the way to a table that a header opened. -/
  | passed
  /-- Dotted keys made it. -/
  | dotted
  /-- A header opened it. -/
  | opened
  deriving DecidableEq, Repr

/-- What a key stands for while the document is read. -/
inductive Entry where
  | value (value : Toml)
  | table (origin : Origin) (members : List (Text × Entry))
  /-- A list of tables, the newest first. -/
  | tables (newest : List (Text × Entry)) (older : List (List (Text × Entry)))
  deriving Repr

/-- The members of a table, in order. -/
abbrev Members := List (Text × Entry)

/-- The members with `entry` under `key`, in its old place if there was one. -/
def put (key : Text) (entry : Entry) : Members → Members
  | [] => [(key, entry)]
  | (k, e) :: rest => if k = key then (k, entry) :: rest else (k, e) :: put key entry rest

/-- Defines a value at a path of keys. -/
def assign? : List Text → Toml → Members → Option Members
  | [], _, _ => none
  | [key], value, members =>
    match members.lookup key with
    | none => some (put key (.value value) members)
    | some _ => none
  | key :: path, value, members =>
    match members.lookup key with
    | none => (assign? path value []).map fun inner => put key (.table .dotted inner) members
    | some (.table .opened _) => none
    | some (.table origin inner) =>
      (assign? path value inner).map fun inner => put key (.table origin inner) members
    | some _ => none

/-- Changes the table that the keys of a header lead to, making the tables on the way. -/
def within? (change : Members → Option Members) : List Text → Members → Option Members
  | [], members => change members
  | key :: path, members =>
    match members.lookup key with
    | none => (within? change path []).map fun inner => put key (.table .passed inner) members
    | some (.table origin inner) =>
      (within? change path inner).map fun inner => put key (.table origin inner) members
    | some (.tables newest older) =>
      (within? change path newest).map fun newest => put key (.tables newest older) members
    | some (.value _) => none

/-- Opens the table `key`. -/
def open? (key : Text) (members : Members) : Option Members :=
  match members.lookup key with
  | none => some (put key (.table .opened []) members)
  | some (.table .passed inner) => some (put key (.table .opened inner) members)
  | some _ => none

/-- Adds a table to the list `key`. -/
def append? (key : Text) (members : Members) : Option Members :=
  match members.lookup key with
  | none => some (put key (.tables [] []) members)
  | some (.tables newest older) => some (put key (.tables [] (newest :: older)) members)
  | some _ => none

/-- A statement of a document. -/
inductive Statement where
  | header (path : List Text)
  | listHeader (path : List Text)
  | assignment (path : List Text) (value : Toml)
  deriving Repr

/-- A document under way: what is defined, and the table that assignments go to. -/
structure Document where
  members : Members := []
  current : List Text := []
  deriving Repr

/-- The document with one statement more; `none` when the statement may not follow. -/
def Document.add? (d : Document) : Statement → Option Document
  | .header path =>
    match path.getLast? with
    | none => none
    | some key =>
      (within? (open? key) path.dropLast d.members).map fun members => ⟨members, path⟩
  | .listHeader path =>
    match path.getLast? with
    | none => none
    | some key =>
      (within? (append? key) path.dropLast d.members).map fun members => ⟨members, path⟩
  | .assignment path value =>
    (within? (assign? path value) d.current d.members).map fun members => { d with members }

mutual

/-- What a key stands for when the document has been read. -/
def Entry.finish : Entry → Toml
  | .value v => v
  | .table _ members => .table (finishMembers members)
  | .tables newest older => .array (finishTables older ++ [.table (finishMembers newest)])

/-- The members of a table when the document has been read. -/
def finishMembers : List (Text × Entry) → List (Text × Toml)
  | [] => []
  | (key, entry) :: rest => (key, entry.finish) :: finishMembers rest

/-- The older tables of a list, in order. -/
def finishTables : List (List (Text × Entry)) → List Toml
  | [] => []
  | members :: older => finishTables older ++ [.table (finishMembers members)]

end

/-- The value of a document. -/
def Document.value (d : Document) : Toml := .table (finishMembers d.members)

/-- The table that dotted assignments make. -/
def ofAssignments? (assignments : List (List Text × Toml)) : Option Toml :=
  (assignments.foldlM (fun members (path, value) => assign? path value members) []).map fun members =>
    .table (finishMembers members)

end Toml
end Nameplate
