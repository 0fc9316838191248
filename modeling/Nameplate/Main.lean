/-
# The program

The files are those of the system, the working directory is the process's own,
and stamps take the local time.

Key definition: `main`.
-/
import Nameplate.Run
import Std.Time.Zoned

namespace Nameplate

/-- What the system says of a failure. -/
def systemText : IO.Error → Text
  | .alreadyExists _ code text | .invalidArgument _ code text | .permissionDenied _ code text
  | .resourceExhausted _ code text | .inappropriateType _ code text | .noSuchThing _ code text =>
    told code text
  | .interrupted _ code text | .noFileOrDirectory _ code text => told code text
  | .otherError code text | .resourceBusy code text | .resourceVanished code text
  | .unsupportedOperation code text | .hardwareFault code text | .unsatisfiedConstraints code text
  | .illegalOperation code text | .protocolError code text | .timeExpired code text =>
    told code text
  | .unexpectedEof => "end of file"
  | .userError text => text
where
  /-- The system's words with its code. -/
  told (code : UInt32) (text : String) : Text :=
    text.toList ++ " (os error " ++ Text.ofNat code.toNat ++ ")"

/-- The kind of what is at a path, if anything is. -/
def fileKind? (path : Path) : IO (Option IO.FS.FileType) :=
  try
    let resolved ← IO.FS.realPath (String.ofList path)
    return some (← resolved.metadata).type
  catch _ => return none

/-- An action, or what the system says of its failure. -/
def attempt {α : Type} (action : IO α) : IO (Except Text α) :=
  try return .ok (← action) catch e => return .error (systemText e)

/-- Writes a file, and makes the directories above it. -/
def writeSystemFile (path : Path) (content : Bytes) : IO Unit := do
  match Path.parent? path with
  | none | some [] => pure ()
  | some parent => IO.FS.createDirAll (String.ofList parent)
  IO.FS.writeBinFile (String.ofList path) (ByteArray.mk content.toArray)

instance : FileAccess IO where
  isFile path := return (← fileKind? path) == some .file
  isDirectory path := return (← fileKind? path) == some .dir
  openAt path := attempt do
    return ⟨(← IO.FS.readBinFile (String.ofList path)).toList, none⟩
  writeAt path content := attempt (writeSystemFile path content)

/-- The local time. -/
def localTime : IO Moment := do
  let t ← Std.Time.PlainDateTime.now
  return ⟨t.year.toInt, t.month.toNat, t.day.toNat, t.hour.toNat, t.minute.toNat⟩

end Nameplate

open Nameplate

/-- Runs the program and gives its exit code. -/
def main (arguments : List String) : IO UInt32 := do
  let cwd ← IO.currentDir
  let outcome ← runArguments (arguments.map String.toList) cwd.toString.toList (← localTime)
  IO.print (String.ofList outcome.output)
  IO.eprint (String.ofList outcome.errors)
  return outcome.exitCode.toUInt32
