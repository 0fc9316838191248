/-
# Reading TOML

A document is read line by line: a line is blank, a header, or an assignment,
each with a comment after it or not; only quoted text, arrays and tables in
braces go on over several lines. Each line yields a statement, and the
statements are added to the document one after the other.

Arrays and tables in braces nest no deeper than `depthLimit`. Apart from that
the reader counts down from twice the length of the text, which no document
exhausts.

Key definitions: `Toml.readKey?`, `Toml.readValue`, `Toml.readStatement?`,
`Toml.read?`.
-/
import Nameplate.Toml
import Nameplate.Toml.Quoted
import Nameplate.Toml.Scalar

namespace Nameplate
namespace Toml

/-- How deep values may nest. -/
def depthLimit : Nat := 80

/-- The text after blanks on a line. -/
def skipBlanks (t : Text) : Text := t.dropWhile fun c => c == ' ' || c == '\t'

/-- The characters of keys without quotes. -/
def isKeyChar (c : Char) : Bool := c.isAlphanum || c == '_' || c == '-'

/-- A key without dots, and what follows it. -/
def readSimpleKey? (t : Text) : Option (Text × Text) :=
  match t with
  | '"' :: rest => readBasic (rest.length + 1) rest
  | '\'' :: rest => readLiteral rest
  | _ =>
    let (key, rest) := t.span isKeyChar
    if key = [] then none else some (key, rest)

/-- A key with the keys after its dots, and what follows; blanks around each are skipped. -/
def readKeyPath : Nat → Text → Option (List Text × Text)
  | 0, _ => none
  | n + 1, t =>
    match readSimpleKey? (skipBlanks t) with
    | none => none
    | some (key, rest) =>
      match skipBlanks rest with
      | '.' :: rest => (readKeyPath n rest).map fun (path, rest) => (key :: path, rest)
      | rest => some ([key], rest)

/-- A dotted key, and what follows it. -/
def readKey? (t : Text) : Option (List Text × Text) := readKeyPath (t.length + 1) t

/-- The text from the end of the line on, when a comment or nothing is before it. -/
def skipComment? (t : Text) : Option Text :=
  match t with
  | '#' :: rest =>
    let rest := rest.dropWhile isPrintable
    match rest with
    | [] | '\n' :: _ | '\r' :: '\n' :: _ => some rest
    | _ => none
  | _ => some t

/-- The text after blanks, line ends and comments. The number bounds the lines. -/
def skipLines : Nat → Text → Option Text
  | 0, _ => none
  | n + 1, t =>
    match skipComment? (skipBlanks t) with
    | none => none
    | some ('\n' :: rest) => skipLines n rest
    | some ('\r' :: '\n' :: rest) => skipLines n rest
    | some rest => some rest

/-- The text after blanks, line ends and comments. -/
def skipBetween? (t : Text) : Option Text := skipLines (t.length + 1) t

/-- The characters of numbers, moments and words. -/
def isScalarChar (c : Char) : Bool :=
  c.isAlphanum || c == '_' || c == '+' || c == '-' || c == '.' || c == ':'

/-- The value that a run of characters denotes. -/
def scalarValue? (run : Text) : Option Toml :=
  if run = "true".toList then some (.bool true)
  else if run = "false".toList then some (.bool false)
  else if isNumber run then some .number
  else if isMoment run then some .moment
  else none

/-- A value that is neither quoted nor bracketed, and what follows it. A date takes the time after
one blank with it. -/
def readScalar? (t : Text) : Option (Toml × Text) :=
  let (run, rest) := t.span isScalarChar
  match skipDate? run, rest with
  | some [], ' ' :: c :: rest' =>
    if c.isDigit then
      let (time, rest') := (c :: rest').span isScalarChar
      if isMoment (run ++ ' ' :: time) then some (.moment, rest') else none
    else some (.moment, rest)
  | _, _ => (scalarValue? run).map fun v => (v, rest)

mutual

/-- The value at the beginning, and what follows it; `depth` is how much deeper it may nest. -/
def readValue : Nat → Nat → Text → Option (Toml × Text)
  | 0, _, _ => none
  | n + 1, depth, t =>
    match t with
    | '[' :: rest =>
      match depth with
      | 0 => none
      | depth + 1 => (readItems n depth rest).map fun (items, rest) => (.array items, rest)
    | '\x7b' :: rest =>
      match depth with
      | 0 => none
      | depth + 1 =>
        match readAssignments n depth rest with
        | none => none
        | some (assignments, rest) => (ofAssignments? assignments).map fun v => (v, rest)
    | '"' :: _ | '\'' :: _ => (readQuoted? t).map fun (s, rest) => (.text s, rest)
    | _ => readScalar? t

/-- The items of an array up to the closing bracket, and what follows it. -/
def readItems : Nat → Nat → Text → Option (List Toml × Text)
  | 0, _, _ => none
  | n + 1, depth, t =>
    match skipBetween? t with
    | none => none
    | some (']' :: rest) => some ([], rest)
    | some t =>
      match readValue n depth t with
      | none => none
      | some (item, rest) =>
        match skipBetween? rest with
        | some (',' :: rest) => (readItems n depth rest).map fun (items, rest) => (item :: items, rest)
        | some (']' :: rest) => some ([item], rest)
        | _ => none

/-- The assignments of a table up to the closing brace, and what follows it. -/
def readAssignments : Nat → Nat → Text → Option (List (List Text × Toml) × Text)
  | 0, _, _ => none
  | n + 1, depth, t =>
    match skipBetween? t with
    | none => none
    | some ('\x7d' :: rest) => some ([], rest)
    | some t =>
      match readKey? t with
      | some (path, '=' :: rest) =>
        match readValue n depth (skipBlanks rest) with
        | none => none
        | some (value, rest) =>
          match skipBetween? rest with
          | some (',' :: rest) =>
            (readAssignments n depth rest).map fun (more, rest) => ((path, value) :: more, rest)
          | some ('\x7d' :: rest) => some ([(path, value)], rest)
          | _ => none
      | _ => none

end

/-- The statement at the beginning, and what follows it on its line. -/
def readStatement? (t : Text) : Option (Statement × Text) :=
  match t with
  | '[' :: '[' :: rest =>
    match readKey? rest with
    | some (path, ']' :: ']' :: rest) => some (.listHeader path, rest)
    | _ => none
  | '[' :: rest =>
    match readKey? rest with
    | some (path, ']' :: rest) => some (.header path, rest)
    | _ => none
  | _ =>
    match readKey? t with
    | some (path, '=' :: rest) =>
      (readValue (2 * rest.length + 2) depthLimit (skipBlanks rest)).map fun (value, rest) =>
        (.assignment path value, rest)
    | _ => none

/-- What follows the end of a line, when nothing but a comment is before it. -/
def endLine? (t : Text) : Option Text :=
  match skipComment? (skipBlanks t) with
  | some [] => some []
  | some ('\n' :: rest) => some rest
  | some ('\r' :: '\n' :: rest) => some rest
  | _ => none

/-- Adds the statements of a text to a document. The number bounds the lines. -/
def readLines : Nat → Document → Text → Option Document
  | 0, _, _ => none
  | n + 1, d, t =>
    match skipBetween? t with
    | none => none
    | some [] => some d
    | some t =>
      match readStatement? t with
      | none => none
      | some (statement, rest) =>
        match d.add? statement, endLine? rest with
        | some d, some rest => readLines n d rest
        | _, _ => none

/-- The text without a byte order mark at its beginning. -/
def dropMark : Text → Text
  | '\uFEFF' :: rest => rest
  | t => t

/-- The value of a document. -/
def read? (t : Text) : Option Toml :=
  (readLines (t.length + 1) {} (dropMark t)).map Document.value

end Toml
end Nameplate
