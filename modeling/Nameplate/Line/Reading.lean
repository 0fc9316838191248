/-
# Reading a stream line by line

A `Source` is what opening a file gives: the bytes the stream delivers and,
when it breaks, the failure it then reports. A broken stream delivers the
lines it has terminated; what follows the last terminator is lost, and the
failure takes its place even when nothing follows.

A `Reading` is the outcome: the decoded lines in order, and the failure that
ended them early, if any. Strict decoding stops at the first line that is not
UTF-8 and names it, counting from 1; lossy decoding accepts every line.

Key definitions: `Source.lines`, `Source.strict`, `Source.lossy`.
-/
import Nameplate.Line
import Nameplate.Text.Utf8

namespace Nameplate

/-- Why reading or writing a file failed. -/
inductive ReadFault where
  /-- The failure the system reports. -/
  | system (text : Text)
  /-- A line, counted from 1, is not UTF-8. -/
  | notText (line : Nat) (fault : Utf8.Fault)
  deriving DecidableEq, Repr

/-- The failure in words. -/
def ReadFault.message : ReadFault → Text
  | .system text => text
  | .notText line fault =>
    "line " ++ Text.ofNat line ++ " is not valid UTF-8 (" ++ fault.message ++
      "); convert the file from its ANSI code page to UTF-8"

/-- An opened file: the bytes it delivers, and the failure it then ends in. -/
structure Source where
  bytes : Bytes
  failure : Option Text
  deriving DecidableEq, Repr

/-- A decoded line. -/
structure Line where
  text : Text
  ending : Ending
  deriving DecidableEq, Repr

namespace Line

/-- The line with its ending. -/
def whole (l : Line) : Text := l.text ++ l.ending.text

/-- The contents made of lines. -/
def join (ls : List Line) : Text := ls.flatMap whole

end Line

/-- Lines read in order, and the failure that came after them. -/
structure Reading where
  lines : List Line
  failure : Option ReadFault
  deriving DecidableEq, Repr

/-- Puts a line before the others. -/
def Reading.cons (l : Line) (r : Reading) : Reading := { r with lines := l :: r.lines }

namespace Source

/-- The lines a source delivers: of a broken one, those that are terminated. -/
def lines (s : Source) : List PhysicalLine :=
  match s.failure with
  | none => PhysicalLine.split s.bytes
  | some _ => (PhysicalLine.split s.bytes).filter fun l => l.ending ≠ .none

/-- The failure a broken source ends in. -/
def fault (s : Source) : Option ReadFault := s.failure.map .system

/-- Decodes lines until one is not UTF-8, counting from `number`. -/
def strictFrom (fault : Option ReadFault) : Nat → List PhysicalLine → Reading
  | _, [] => ⟨[], fault⟩
  | number, l :: ls =>
    match Utf8.decode l.text with
    | .ok text => (strictFrom fault (number + 1) ls).cons ⟨text, l.ending⟩
    | .error f => ⟨[], some (.notText number f)⟩

/-- Reads lines that must be UTF-8. -/
def strict (s : Source) : Reading := strictFrom s.fault 1 s.lines

/-- Reads lines with U+FFFD for what is not UTF-8. -/
def lossy (s : Source) : Reading :=
  ⟨s.lines.map fun l => ⟨Utf8.decodeLossy l.text, l.ending⟩, s.fault⟩

/-- Reads all of a file as one text, which must be UTF-8. -/
def text (s : Source) : Except ReadFault Text :=
  match s.failure with
  | some f => .error (.system f)
  | none =>
    match Utf8.decode s.bytes with
    | .ok t => .ok t
    | .error _ => .error (.system "stream did not contain valid UTF-8")

/-- A reading that ends early reports a failure: the source's own, or a line that is not UTF-8. -/
theorem strict_failure_isSome {s : Source} (h : s.failure.isSome) : s.strict.failure.isSome := by
  have aux : ∀ (ls : List PhysicalLine) (n : Nat), (strictFrom s.fault n ls).failure.isSome := by
    intro ls
    induction ls with
    | nil => intro n; simpa [strictFrom, fault] using h
    | cons l ls ih =>
      intro n
      rw [strictFrom]
      split
      · simpa [Reading.cons] using ih (n + 1)
      · rfl
  exact aux _ _

end Source
end Nameplate
