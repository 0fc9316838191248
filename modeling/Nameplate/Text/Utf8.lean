/-
# UTF-8

`encode` writes a text as bytes. `pieces` reads bytes back one at a time: what
it has seen of an unfinished character is a `Pending`, and each byte either
continues it, ends it, or shows it to be no character at all and starts
afresh. So a run of bytes that can begin a character but does not finish one
is reported once, as one invalid piece: the maximal invalid subsequence.

`decode` accepts characters only and names the first piece that is none;
`decodeLossy` puts one U+FFFD in place of each such piece.

Key definitions: `Utf8.encode`, `Utf8.pieces`, `Utf8.decode`,
`Utf8.decodeLossy`.
-/
import Nameplate.Text

namespace Nameplate
namespace Utf8

/-- The bytes of one character. -/
def encodeChar (c : Char) : Bytes :=
  let n := c.toNat
  if n < 0x80 then [n.toUInt8]
  else if n < 0x800 then [(0xC0 + n / 0x40).toUInt8, (0x80 + n % 0x40).toUInt8]
  else if n < 0x10000 then
    [(0xE0 + n / 0x1000).toUInt8, (0x80 + n / 0x40 % 0x40).toUInt8, (0x80 + n % 0x40).toUInt8]
  else
    [(0xF0 + n / 0x40000).toUInt8, (0x80 + n / 0x1000 % 0x40).toUInt8,
      (0x80 + n / 0x40 % 0x40).toUInt8, (0x80 + n % 0x40).toUInt8]

/-- The bytes of a text. -/
def encode (t : Text) : Bytes := t.flatMap encodeChar

@[simp] theorem encode_append (s t : Text) : encode (s ++ t) = encode s ++ encode t := by
  simp [encode]

/-- What a byte sequence falls into: characters, and stretches that are none. -/
inductive Piece where
  | char (c : Char)
  /-- The next byte cannot follow these `length` bytes. -/
  | invalid (length : Nat)
  /-- The bytes end inside a character. -/
  | incomplete
  deriving DecidableEq, Repr

/-- A character that has begun: the ranges its next bytes must lie in, the value of the bits
read so far, and the number of bytes read. -/
structure Pending where
  next : Nat × Nat
  later : List (Nat × Nat)
  value : Nat
  read : Nat
  deriving DecidableEq, Repr

/-- The range of a byte that continues a character. -/
def tail : Nat × Nat := (0x80, 0xBF)

/-- The ranges of the bytes after a lead byte of at least 0x80; `none` when no character begins
with it. The second byte is confined where a longer form than needed, a surrogate or a value
above U+10FFFF would begin. -/
def followers (lead : Nat) : Option (Pending) :=
  if lead < 0xC2 then none
  else if lead < 0xE0 then some ⟨tail, [], lead - 0xC0, 1⟩
  else if lead = 0xE0 then some ⟨(0xA0, 0xBF), [tail], 0, 1⟩
  else if lead = 0xED then some ⟨(0x80, 0x9F), [tail], 0xD, 1⟩
  else if lead < 0xF0 then some ⟨tail, [tail], lead - 0xE0, 1⟩
  else if lead = 0xF0 then some ⟨(0x90, 0xBF), [tail, tail], 0, 1⟩
  else if lead < 0xF4 then some ⟨tail, [tail, tail], lead - 0xF0, 1⟩
  else if lead = 0xF4 then some ⟨(0x80, 0x8F), [tail, tail], 4, 1⟩
  else none

/-- A byte where a character may begin. -/
def begin (b : UInt8) : List Piece × Option Pending :=
  if b.toNat < 0x80 then ([.char (Char.ofNat b.toNat)], none)
  else
    match followers b.toNat with
    | some p => ([], some p)
    | none => ([.invalid 1], none)

/-- One byte more: the pieces it completes and the character it leaves unfinished. -/
def step : Option Pending → UInt8 → List Piece × Option Pending
  | none, b => begin b
  | some p, b =>
    if p.next.1 ≤ b.toNat ∧ b.toNat ≤ p.next.2 then
      let value := p.value * 0x40 + (b.toNat - 0x80)
      match p.later with
      | [] => ([.char (Char.ofNat value)], none)
      | r :: rs => ([], some ⟨r, rs, value, p.read + 1⟩)
    else
      let (ps, st) := begin b
      (.invalid p.read :: ps, st)

/-- The pieces of the bytes that follow an unfinished character. -/
def piecesFrom : Option Pending → Bytes → List Piece
  | none, [] => []
  | some _, [] => [.incomplete]
  | st, b :: rest => (step st b).1 ++ piecesFrom (step st b).2 rest

/-- The pieces of a byte sequence. -/
def pieces (bs : Bytes) : List Piece := piecesFrom none bs

/-- Why bytes are no text: the first stretch that is no character begins at byte `index`; it is
`length` bytes long, or the bytes end inside it. -/
structure Fault where
  index : Nat
  length : Option Nat
  deriving DecidableEq, Repr

/-- The characters of pieces that are nothing else, with the byte offset of the first piece. -/
def charsFrom : Nat → List Piece → Except Fault Text
  | _, [] => .ok []
  | i, .char c :: rest => (charsFrom (i + c.utf8Size) rest).map (c :: ·)
  | i, .invalid n :: _ => .error ⟨i, some n⟩
  | i, .incomplete :: _ => .error ⟨i, none⟩

/-- The text a byte sequence encodes. -/
def decode (bs : Bytes) : Except Fault Text := charsFrom 0 (pieces bs)

/-- The character a piece stands for when faults are passed over. -/
def Piece.lossy : Piece → Char
  | .char c => c
  | .invalid _ | .incomplete => '\uFFFD'

/-- The text of a byte sequence with U+FFFD for every stretch that is no character. -/
def decodeLossy (bs : Bytes) : Text := (pieces bs).map Piece.lossy

theorem decodeLossy_of_chars : ∀ {ps : List Piece} {i : Nat} {t : Text}, charsFrom i ps = .ok t →
    ps.map Piece.lossy = t
  | [], _, _, h => by simpa [charsFrom] using h
  | .char c :: rest, i, t, h => by
    rw [charsFrom] at h
    cases hr : charsFrom (i + c.utf8Size) rest with
    | error e => simp [hr, Except.map] at h
    | ok t' =>
      simp only [hr, Except.map, Except.ok.injEq] at h
      simp [← h, Piece.lossy, decodeLossy_of_chars hr]
  | .invalid _ :: _, _, _, h => by simp [charsFrom] at h
  | .incomplete :: _, _, _, h => by simp [charsFrom] at h

/-- On valid bytes the two decoders agree. -/
theorem decodeLossy_of_decode {bs : Bytes} {t : Text} (h : decode bs = .ok t) : decodeLossy bs = t :=
  decodeLossy_of_chars h

/-- The fault in words. -/
def Fault.message (f : Fault) : Text :=
  match f.length with
  | some n => "invalid utf-8 sequence of " ++ Text.ofNat n ++ " bytes from index " ++ Text.ofNat f.index
  | none => "incomplete utf-8 byte sequence from index " ++ Text.ofNat f.index

end Utf8
end Nameplate
