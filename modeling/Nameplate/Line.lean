/-
# Physical lines

A physical line is its text and the way it ends: with a line feed, with
carriage return and line feed, or, the last one only, not at all. A carriage
return anywhere else is part of the text. Splitting loses nothing
(`join_split`), so a file written back line by line differs from what was read
only in the lines that were changed.

Key definitions: `PhysicalLine.split`, `PhysicalLine.join`.
Key theorem: `PhysicalLine.join_split`.
-/
import Nameplate.Text

namespace Nameplate

/-- How a line ends. -/
inductive Ending where
  | lineFeed
  | carriageReturnLineFeed
  /-- The contents end with the line. -/
  | none
  deriving DecidableEq, Repr

namespace Ending

/-- The characters of an ending. -/
def text : Ending → Text
  | .lineFeed => ['\n']
  | .carriageReturnLineFeed => ['\r', '\n']
  | .none => []

/-- The bytes of an ending. -/
def bytes : Ending → Bytes
  | .lineFeed => [0x0A]
  | .carriageReturnLineFeed => [0x0D, 0x0A]
  | .none => []

end Ending

/-- A line as it stands in a file. -/
structure PhysicalLine where
  text : Bytes
  ending : Ending
  deriving DecidableEq, Repr

namespace PhysicalLine

/-- All bytes of a line. -/
def bytes (l : PhysicalLine) : Bytes := l.text ++ l.ending.bytes

/-- The contents made of lines. -/
def join (ls : List PhysicalLine) : Bytes := ls.flatMap bytes

/-- Puts a byte other than a line feed before the first line. A carriage return becomes part of
the ending when nothing but a line feed follows it on the line. -/
def extend (b : UInt8) : List PhysicalLine → List PhysicalLine
  | [] => [⟨[b], .none⟩]
  | l :: ls =>
    if b = 0x0D ∧ l = ⟨[], .lineFeed⟩ then ⟨[], .carriageReturnLineFeed⟩ :: ls
    else ⟨b :: l.text, l.ending⟩ :: ls

/-- The physical lines of the contents of a file. -/
def split : Bytes → List PhysicalLine
  | [] => []
  | b :: rest => if b = 0x0A then ⟨[], .lineFeed⟩ :: split rest else extend b (split rest)

theorem join_extend (b : UInt8) (ls : List PhysicalLine) : join (extend b ls) = b :: join ls := by
  cases ls with
  | nil => rfl
  | cons l ls =>
    rw [extend]
    split
    next h => simp [join, bytes, h.1, h.2, Ending.bytes]
    next => simp [join, bytes]

/-- **Splitting loses nothing.** -/
theorem join_split (bs : Bytes) : join (split bs) = bs := by
  induction bs with
  | nil => rfl
  | cons b rest ih =>
    rw [split]
    split
    next h =>
      subst h
      simpa [join, bytes, Ending.bytes] using ih
    next => rw [join_extend, ih]

end PhysicalLine
end Nameplate
