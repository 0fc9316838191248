/-
# Sessions

What a user asks of the library is an `Operation`: stamp a project, announce
its version, package it, describe it, or say where its properties file is. A
session is a run of operations over files in memory; each `Step` of it records
the files before, the operation, the answer, and the files after.

Key definitions: `Operation`, `Operation.run`, `Session.steps`,
`Session.final`.
-/
import Nameplate.Files.Store
import Nameplate.Nuspec
import Nameplate.Sonar
import Nameplate.Version.File

namespace Nameplate

/-- What can be asked for. -/
inductive Operation where
  | stamp (target : StampTarget) (options : StampOptions) (dryRun : Bool)
  | announce (solutionDir projectDir : Path) (version : Text)
  | package (request : PackageRequest)
  /-- `built` asks for the metadata of the build output where the language has one, `complete` for
  metadata that lacks no field. -/
  | describe (request : MetadataRequest) (built complete : Bool)
  | locate (solutionDir projectDir : Path)
  deriving DecidableEq, Repr

/-- What is answered. -/
inductive Answer where
  | stamped (stamped : Stamped)
  | announced (report : Sonar.Report)
  | packaged (report : PackageReport)
  | described (found : Metadata)
  | located (path : Path)
  deriving DecidableEq, Repr

namespace Operation

variable {m : Type → Type} [Monad m] [FileAccess m]

/-- Does what is asked for. -/
def run : Operation → ExceptT Failure m Answer
  | .stamp target options dryRun => do return .stamped (← stampProject target options dryRun)
  | .announce solutionDir projectDir version => do
    return .announced (← Sonar.stamp solutionDir projectDir version)
  | .package request => do return .packaged (← makePackage request)
  | .describe request built complete => do
    let found ← if built then findBuiltMetadata request else findMetadata request
    if complete then return .described (← ExceptT.mk (pure found.ensureComplete))
    return .described found
  | .locate solutionDir projectDir => do return .located (← Sonar.find solutionDir projectDir)

/-- Whether the operation is meant to write a file. -/
def writes : Operation → Bool
  | .stamp _ _ dryRun => !dryRun
  | .announce _ _ _ | .package _ => true
  | .describe _ _ _ | .locate _ _ => false

end Operation

/-- The file an answer is about. -/
def Answer.path : Answer → Path
  | .stamped s => s.path
  | .announced r => r.path
  | .packaged r => r.path
  | .described found => found.path
  | .located path => path

/-- What can fail over files in memory. -/
abbrev Action (α : Type) := ExceptT Failure (StateM Store) α

/-- The outcome of an action, and the files after it. -/
def Action.on {α : Type} (x : Action α) (s : Store) : Except Failure α × Store := x.run.run s

/-- The answer of an operation, and the files after it. -/
def Operation.runOn (op : Operation) (s : Store) : Except Failure Answer × Store :=
  Action.on op.run s

/-- One operation of a session. -/
structure Step where
  before : Store
  operation : Operation
  answer : Except Failure Answer
  after : Store

namespace Session

/-- The steps of a run of operations. -/
def steps : Store → List Operation → List Step
  | _, [] => []
  | s, op :: ops => ⟨s, op, (op.runOn s).1, (op.runOn s).2⟩ :: steps (op.runOn s).2 ops

/-- The files after a run of operations. -/
def final (s : Store) (ops : List Operation) : Store := ops.foldl (fun s op => (op.runOn s).2) s

end Session
end Nameplate
