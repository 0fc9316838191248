/-
# JSON values and their printing

A JSON value as far as manifests and reports need it. Numbers read from a
manifest are checked and not kept; numbers printed are counts. A string that
is well formed and still no text, because of bytes that are not UTF-8 or of a
lone surrogate, is `notText`: it is an error only where its text is wanted.

`print` writes a report: an object over several lines, two blanks before each
member, every character as itself that need not be escaped.

Key definitions: `Json`, `Report.print`.
-/
import Nameplate.Text

namespace Nameplate

/-- A value read from a JSON document. -/
inductive Json where
  | null
  | bool (value : Bool)
  | number
  | text (value : Text)
  | notText
  | array (items : List Json)
  /-- Members in order; a key may be no text. -/
  | object (members : List (Option Text × Json))
  deriving Repr

/-- A value of a report. -/
inductive ReportValue where
  | null
  | bool (value : Bool)
  | count (value : Nat)
  | text (value : Text)
  deriving DecidableEq, Repr

namespace Report

/-- The characters a control character is written with. -/
def escapeControl (n : Nat) : Text :=
  ['\\', 'u', '0', '0', Nat.digitChar (n / 16), Nat.digitChar (n % 16)]

/-- A character inside a string. -/
def escapeChar (c : Char) : Text :=
  match c with
  | '"' => ['\\', '"']
  | '\\' => ['\\', '\\']
  | '\x08' => ['\\', 'b']
  | '\t' => ['\\', 't']
  | '\n' => ['\\', 'n']
  | '\x0c' => ['\\', 'f']
  | '\r' => ['\\', 'r']
  | c => if c.toNat < 0x20 then escapeControl c.toNat else [c]

/-- A text as a JSON string. -/
def quote (t : Text) : Text := '"' :: (t.flatMap escapeChar ++ ['"'])

/-- A value of a report. -/
def printValue : ReportValue → Text
  | .null => "null"
  | .bool b => Text.ofBool b
  | .count n => Text.ofNat n
  | .text t => quote t

/-- A member of a report, on a line of its own. -/
def printMember (member : Text × ReportValue) : Text :=
  "  " ++ quote member.1 ++ ": " ++ printValue member.2

/-- A report as a JSON object over several lines. -/
def print (members : List (Text × ReportValue)) : Text :=
  "\x7b\n" ++ Text.join ",\n" (members.map printMember) ++ "\n\x7d"

end Report
end Nameplate
