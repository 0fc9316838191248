/-
# Finding the metadata of a project

A project's metadata is in its info file, or, where the language is compiled
and a build artifact is given, in the artifact. What is found may lack fields;
`ensureComplete` refuses that.

Key definitions: `findMetadata`, `findBuiltMetadata`, `Metadata.ensureComplete`.
-/
import Nameplate.Record.Artifact
import Nameplate.Record.Scan

namespace Nameplate

/-- Where to look for metadata. -/
structure MetadataRequest where
  projectDir : Path
  language : Language
  /-- The info file, seen from the project directory, when it is not the language's own. -/
  infoPath : Option Path := none
  artifact : Option Path := none
  deriving DecidableEq, Repr

/-- The file that holds the metadata or the versions of a project: the given one, seen from the
project directory, or the language's own. -/
def Profile.fileIn (p : Profile) (projectDir : Path) (given : Option Path) : Path :=
  match given with
  | some path => Path.join projectDir path
  | none => p.infoFileAt projectDir

/-- Metadata, and where it was found. -/
structure Metadata where
  path : Path
  record : Record
  /-- What only an artifact has. -/
  extras : Option ArtifactDetails
  deriving DecidableEq, Repr

/-- Refuses metadata that lacks fields. -/
def Metadata.ensureComplete (e : Metadata) : Except Failure Metadata :=
  match e.record.missing with
  | [] => .ok e
  | missing => .error (.project (.incomplete e.path missing))

theorem Metadata.ensureComplete_eq_ok_iff (e e' : Metadata) :
    e.ensureComplete = .ok e' ↔ e.record.isComplete = true ∧ e' = e := by
  unfold ensureComplete Record.isComplete
  cases e.record.missing <;> simp [eq_comm]

variable {m : Type → Type} [Monad m] [FileAccess m]

/-- The metadata an info file declares. -/
def scanFile (p : Profile) (path : Path) : ExceptT Failure m Record := do
  let source ← openFile path
  match Record.scan p source with
  | .ok record => return record
  | .error fault => throw (.system fault)

/-- The metadata of a project, complete or not. -/
def findMetadata (r : MetadataRequest) : ExceptT Failure m Metadata := do
  let p := r.language.profile
  match p.compiled, r.artifact with
  | true, some artifact =>
    let (record, extras) ← readArtifact artifact
    return ⟨artifact, record, some extras⟩
  | _, _ =>
    let path := p.fileIn r.projectDir r.infoPath
    let record ← scanFile p path
    return ⟨path, record, none⟩

/-- The metadata of a project, which must be read from an artifact where the language has one. -/
def findBuiltMetadata (r : MetadataRequest) : ExceptT Failure m Metadata := do
  if r.language.profile.compiled && r.artifact.isNone then
    throw (.settings (.missing "output_path"))
  findMetadata r

end Nameplate
