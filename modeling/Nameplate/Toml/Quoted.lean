/-
# Quoted text in TOML

Text stands in double quotes, where a backslash escapes, or in single quotes,
where nothing does; on one line, or, with tripled quotes, on several. A
tripled quote may have up to two quotes of its own directly before it. A line
feed directly after the opening quotes does not count, and in escaped text a
backslash at the end of a line takes all blanks and line ends after it away.

Control characters other than the tab must be escaped. A carriage return
stands before a line feed only.

Key definitions: `Toml.readBasic`, `Toml.readLiteral`, `Toml.readLongBasic`,
`Toml.readLongLiteral`.
-/
import Nameplate.Json.Reader

namespace Nameplate
namespace Toml

/-- Whether a character may stand in a line of a document outside of escapes. -/
def isPrintable (c : Char) : Bool := c == '\t' || (0x20 ≤ c.toNat && c.toNat != 0x7F)

/-- The character that hexadecimal digits denote. -/
def scalar? (digits : Text) : Option Char := do
  let n ← Json.ofHex? digits
  if n < 0xD800 ∨ (0xE000 ≤ n ∧ n < 0x110000) then some (Char.ofNat n) else none

/-- The character that an escape stands for; its text comes without the backslash. Also what
follows it. -/
def readEscape? : Text → Option (Char × Text)
  | 'b' :: rest => some ('\x08', rest)
  | 't' :: rest => some ('\t', rest)
  | 'n' :: rest => some ('\n', rest)
  | 'f' :: rest => some ('\x0c', rest)
  | 'r' :: rest => some ('\r', rest)
  | 'e' :: rest => some ('\x1b', rest)
  | '"' :: rest => some ('"', rest)
  | '\\' :: rest => some ('\\', rest)
  | 'x' :: rest => digits 2 rest
  | 'u' :: rest => digits 4 rest
  | 'U' :: rest => digits 8 rest
  | _ => none
where
  /-- The character that the first `n` characters denote. -/
  digits (n : Nat) (t : Text) : Option (Char × Text) :=
    if (t.take n).length = n then (scalar? (t.take n)).map fun c => (c, t.drop n) else none

/-- Puts a character before the text that was read. -/
def push (c : Char) (r : Text × Text) : Text × Text := (c :: r.1, r.2)

/-- Escaped text on one line, up to the closing quote, and what follows. The number bounds the
characters read. -/
def readBasic : Nat → Text → Option (Text × Text)
  | 0, _ => none
  | n + 1, t =>
    match t with
    | '"' :: rest => some ([], rest)
    | '\\' :: rest => do
      let (c, rest) ← readEscape? rest
      (readBasic n rest).map (push c)
    | c :: rest => if isPrintable c then (readBasic n rest).map (push c) else none
    | [] => none

/-- Text in single quotes on one line, up to the closing quote, and what follows. -/
def readLiteral : Text → Option (Text × Text)
  | '\'' :: rest => some ([], rest)
  | c :: rest => if isPrintable c then (readLiteral rest).map (push c) else none
  | [] => none

/-- What follows a line end directly after opening quotes. -/
def skipLineEnd : Text → Text
  | '\n' :: rest => rest
  | '\r' :: '\n' :: rest => rest
  | t => t

/-- The quotes at the end of a text in tripled quotes: how many of a run of `n` belong to the
text, and how many are read. -/
def closing (n : Nat) : Nat × Nat := (min n 5 - 3, min n 5)

/-- The number of times a text begins with `c`. -/
def runLength (c : Char) (t : Text) : Nat := (t.takeWhile (· == c)).length

/-- What follows a backslash at the end of a line, all blanks and line ends skipped. `none` when
there is something else on the line. -/
def skipFold? (t : Text) : Option Text :=
  let rest := t.dropWhile fun c => c == ' ' || c == '\t'
  match rest with
  | '\n' :: _ | '\r' :: '\n' :: _ =>
    some (rest.dropWhile fun c => c == ' ' || c == '\t' || c == '\n' || c == '\r')
  | _ => none

/-- Escaped text on several lines, up to the closing quotes, and what follows. -/
def readLongBasic : Nat → Text → Option (Text × Text)
  | 0, _ => none
  | n + 1, t =>
    match t with
    | '"' :: rest =>
      let run := runLength '"' t
      if 3 ≤ run then
        let (kept, read) := closing run
        some (List.replicate kept '"', t.drop read)
      else (readLongBasic n rest).map (push '"')
    | '\\' :: rest =>
      match readEscape? rest with
      | some (c, rest) => (readLongBasic n rest).map (push c)
      | none =>
        match skipFold? rest with
        | some rest => readLongBasic n rest
        | none => none
    | '\r' :: '\n' :: rest => (readLongBasic n rest).map fun r => push '\r' (push '\n' r)
    | c :: rest =>
      if isPrintable c || c == '\n' then (readLongBasic n rest).map (push c) else none
    | [] => none

/-- Text in single quotes on several lines, up to the closing quotes, and what follows. -/
def readLongLiteral : Text → Option (Text × Text)
  | '\'' :: rest =>
    let run := runLength '\'' ('\'' :: rest)
    if 3 ≤ run then
      let (kept, read) := closing run
      some (List.replicate kept '\'', ('\'' :: rest).drop read)
    else (readLongLiteral rest).map (push '\'')
  | '\r' :: '\n' :: rest => (readLongLiteral rest).map fun r => push '\r' (push '\n' r)
  | c :: rest => if isPrintable c || c == '\n' then (readLongLiteral rest).map (push c) else none
  | [] => none

/-- The text that quotes at the beginning open, and what follows it. -/
def readQuoted? (t : Text) : Option (Text × Text) :=
  match t with
  | '"' :: '"' :: '"' :: rest => readLongBasic (rest.length + 1) (skipLineEnd rest)
  | '"' :: rest => readBasic (rest.length + 1) rest
  | '\'' :: '\'' :: '\'' :: rest => readLongLiteral (skipLineEnd rest)
  | '\'' :: rest => readLiteral rest
  | _ => none

end Toml
end Nameplate
