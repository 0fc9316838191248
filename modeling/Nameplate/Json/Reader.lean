/-
# Reading JSON

The grammar of JSON over glyphs: a glyph is a character, or `none` for a
stretch of bytes that is no character. Such a stretch can stand inside a
string only, and makes the string no text. So does an escaped surrogate that
is not half of a pair.

A document is one value with blanks around it. There is no limit on nesting;
the reader counts down from twice the number of glyphs, which no document
exhausts, since it takes a glyph at least every second step.

Key definitions: `Json.readString`, `Json.readValue`, `Json.read?`.
-/
import Nameplate.Json
import Nameplate.Text.Utf8

namespace Nameplate
namespace Json

/-- A character, or a stretch of bytes that is none. -/
abbrev Glyph := Option Char

/-- The glyphs of bytes. -/
def glyphs (bs : Bytes) : List Glyph :=
  (Utf8.pieces bs).map fun
    | .char c => some c
    | .invalid _ | .incomplete => none

/-- The blanks between the parts of a document. -/
def isBlankGlyph : Glyph → Bool
  | some c => c == ' ' || c == '\n' || c == '\t' || c == '\r'
  | none => false

/-- The glyphs after leading blanks. -/
def skipBlanks (gs : List Glyph) : List Glyph := gs.dropWhile isBlankGlyph

/-- Whether a glyph is a decimal digit. -/
def isDigitGlyph : Glyph → Bool
  | some c => c.isDigit
  | none => false

/-- The value of a hexadecimal digit. -/
def hexDigit? (c : Char) : Option Nat :=
  if c.isDigit then some (c.toNat - '0'.toNat)
  else if 'a' ≤ c ∧ c ≤ 'f' then some (c.toNat - 'a'.toNat + 10)
  else if 'A' ≤ c ∧ c ≤ 'F' then some (c.toNat - 'A'.toNat + 10)
  else none

/-- The number that hexadecimal digits denote. -/
def ofHex? (digits : Text) : Option Nat :=
  digits.foldlM (fun n c => (hexDigit? c).map fun d => n * 16 + d) 0

/-- What a string is made of. -/
inductive StringUnit where
  | char (c : Char)
  /-- An escaped surrogate. -/
  | surrogate (n : Nat)
  /-- Bytes that are no character. -/
  | notText
  deriving DecidableEq, Repr

/-- The text of a string; a high surrogate and a low one right after it are one character. -/
def textOf : List StringUnit → Option Text
  | [] => some []
  | .char c :: rest => (textOf rest).map (c :: ·)
  | .surrogate high :: .surrogate low :: rest =>
    if high < 0xDC00 ∧ 0xDC00 ≤ low then
      (textOf rest).map (Char.ofNat (0x10000 + (high - 0xD800) * 0x400 + (low - 0xDC00)) :: ·)
    else none
  | .surrogate _ :: _ => none
  | .notText :: _ => none

/-- The unit that four hexadecimal digits denote. -/
def unitOf (n : Nat) : StringUnit :=
  if 0xD800 ≤ n ∧ n < 0xE000 then .surrogate n else .char (Char.ofNat n)

/-- The character that a backslash and the given one stand for. -/
def escaped? : Char → Option Char
  | '"' => some '"'
  | '\\' => some '\\'
  | '/' => some '/'
  | 'b' => some '\x08'
  | 'f' => some '\x0c'
  | 'n' => some '\n'
  | 'r' => some '\r'
  | 't' => some '\t'
  | _ => none

/-- The units of a string up to the closing quote, and what follows it. -/
def readString : List Glyph → Option (List StringUnit × List Glyph)
  | some '"' :: rest => some ([], rest)
  | some '\\' :: some 'u' :: some a :: some b :: some c :: some d :: rest => do
    let n ← ofHex? [a, b, c, d]
    let (units, rest) ← readString rest
    some (unitOf n :: units, rest)
  | some '\\' :: some e :: rest => do
    let c ← escaped? e
    let (units, rest) ← readString rest
    some (.char c :: units, rest)
  | some '\\' :: _ => none
  | some c :: rest =>
    if c.toNat < 0x20 then none
    else (readString rest).map fun (units, rest) => (.char c :: units, rest)
  | none :: rest => (readString rest).map fun (units, rest) => (.notText :: units, rest)
  | [] => none

/-- What follows at least one digit. -/
def skipDigits? (gs : List Glyph) : Option (List Glyph) :=
  match gs with
  | g :: rest => if isDigitGlyph g then some (rest.dropWhile isDigitGlyph) else none
  | [] => none

/-- What follows the digits before the point: one 0, or digits that begin with another. -/
def skipInteger? (gs : List Glyph) : Option (List Glyph) :=
  match gs with
  | some '0' :: rest => if rest.head?.any isDigitGlyph then none else some rest
  | _ => skipDigits? gs

/-- What follows a fraction, if there is one. -/
def skipFraction? (gs : List Glyph) : Option (List Glyph) :=
  match gs with
  | some '.' :: rest => skipDigits? rest
  | _ => some gs

/-- What follows an exponent, if there is one. -/
def skipExponent? (gs : List Glyph) : Option (List Glyph) :=
  match gs with
  | some e :: rest =>
    if e = 'e' ∨ e = 'E' then
      match rest with
      | some '+' :: rest => skipDigits? rest
      | some '-' :: rest => skipDigits? rest
      | _ => skipDigits? rest
    else some gs
  | _ => some gs

/-- What follows a number. -/
def skipNumber? (gs : List Glyph) : Option (List Glyph) :=
  let unsigned := match gs with
    | some '-' :: rest => rest
    | _ => gs
  ((skipInteger? unsigned).bind skipFraction?).bind skipExponent?

mutual

/-- The value at the beginning, blanks before it skipped, and what follows. -/
def readValue : Nat → List Glyph → Option (Json × List Glyph)
  | 0, _ => none
  | n + 1, gs =>
    match skipBlanks gs with
    | some 'n' :: some 'u' :: some 'l' :: some 'l' :: rest => some (.null, rest)
    | some 't' :: some 'r' :: some 'u' :: some 'e' :: rest => some (.bool true, rest)
    | some 'f' :: some 'a' :: some 'l' :: some 's' :: some 'e' :: rest => some (.bool false, rest)
    | some '"' :: rest =>
      (readString rest).map fun (units, rest) =>
        (match textOf units with
          | some t => .text t
          | none => .notText, rest)
    | some '[' :: rest =>
      match skipBlanks rest with
      | some ']' :: rest => some (.array [], rest)
      | rest => (readItems n rest).map fun (items, rest) => (.array items, rest)
    | some '{' :: rest =>
      match skipBlanks rest with
      | some '}' :: rest => some (.object [], rest)
      | rest => (readMembers n rest).map fun (members, rest) => (.object members, rest)
    | rest => (skipNumber? rest).map fun rest => (.number, rest)

/-- The items of an array up to the closing bracket, and what follows it. -/
def readItems : Nat → List Glyph → Option (List Json × List Glyph)
  | 0, _ => none
  | n + 1, gs =>
    match readValue n gs with
    | none => none
    | some (item, rest) =>
      match skipBlanks rest with
      | some ']' :: rest => some ([item], rest)
      | some ',' :: rest => (readItems n rest).map fun (items, rest) => (item :: items, rest)
      | _ => none

/-- The members of an object up to the closing brace, and what follows it. -/
def readMembers : Nat → List Glyph → Option (List (Option Text × Json) × List Glyph)
  | 0, _ => none
  | n + 1, gs =>
    match skipBlanks gs with
    | some '"' :: rest =>
      match readString rest with
      | none => none
      | some (units, rest) =>
        match skipBlanks rest with
        | some ':' :: rest =>
          match readValue n rest with
          | none => none
          | some (value, rest) =>
            match skipBlanks rest with
            | some '}' :: rest => some ([(textOf units, value)], rest)
            | some ',' :: rest =>
              (readMembers n rest).map fun (members, rest) => ((textOf units, value) :: members, rest)
            | _ => none
        | _ => none
    | _ => none

end

/-- The value of a document. -/
def read? (bs : Bytes) : Option Json :=
  let gs := glyphs bs
  match readValue (2 * gs.length + 2) gs with
  | some (value, rest) => if skipBlanks rest = [] then some value else none
  | none => none

end Json
end Nameplate
