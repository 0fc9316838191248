/-
# Semantic versions

`SemanticVersion.parse?` reads the strict form: three numbers without leading
zeros that fit in 64 bits, then `-` and pre-release identifiers, then `+` and
build identifiers, both optional. Printing gives the text back.

Key definitions: `SemanticVersion.parse?`, `SemanticVersion.text`,
`readWord?`.
-/
import Nameplate.Text

namespace Nameplate

/-- One more than the greatest number of 64 bits. -/
def wordLimit : Nat := Nat.pow 2 64

/-- The number that a run of decimal digits denotes. -/
def ofDigits (digits : Text) : Nat := Nat.ofDigitChars 10 digits 0

/-- The number of 64 bits that a text denotes: decimal digits, leading zeros and one leading `+`
allowed. -/
def readWord? (t : Text) : Option Nat :=
  let digits := match t with
    | '+' :: rest => rest
    | _ => t
  if digits ≠ [] ∧ digits.all Char.isDigit ∧ ofDigits digits < wordLimit then some (ofDigits digits)
  else none

/-- Printing a number of 64 bits and reading it back. -/
theorem ofDigits_ofNat (n : Nat) : ofDigits (Text.ofNat n) = n :=
  Nat.ofDigitChars_toDigits (by decide) (by decide)

/-- Three numbers, and what may follow them. -/
structure SemanticVersion where
  major : Nat
  minor : Nat
  patch : Nat
  pre : Option Text
  build : Option Text
  deriving DecidableEq, Repr

namespace SemanticVersion

/-- A number of the strict form at the beginning of a text, and the rest. -/
def readNumber? (t : Text) : Option (Nat × Text) :=
  let digits := t.takeWhile Char.isDigit
  if digits = [] then none
  else if digits.head? = some '0' ∧ digits ≠ ['0'] then none
  else if ofDigits digits < wordLimit then some (ofDigits digits, t.dropWhile Char.isDigit)
  else none

/-- The rest of a text that begins with a dot. -/
def afterDot? : Text → Option Text
  | '.' :: rest => some rest
  | _ => none

/-- The characters of identifiers. -/
def isIdentifierChar (c : Char) : Bool := c.isAlphanum || c == '-'

/-- Whether an identifier is a number with a leading zero. -/
def hasLeadingZero (identifier : Text) : Bool :=
  identifier.all Char.isDigit && identifier.head? == some '0' && identifier.length != 1

/-- Identifiers with dots between them at the beginning of a text, and the rest. `zeros` says
whether a number among them may have leading zeros. -/
def readIdentifiers? (zeros : Bool) (t : Text) : Option (Text × Text) :=
  let run := t.takeWhile fun c => isIdentifierChar c || c == '.'
  if (run.splitOn '.').all fun i => !i.isEmpty && (zeros || !hasLeadingZero i) then
    some (run, t.dropWhile fun c => isIdentifierChar c || c == '.')
  else none

/-- What `sign` introduces, if it is there, and the rest. -/
def readOptional? (sign : Char) (zeros : Bool) (t : Text) : Option (Option Text × Text) :=
  match t with
  | [] => some (none, [])
  | c :: rest =>
    if c = sign then
      (readIdentifiers? zeros rest).map fun (identifiers, rest) => (some identifiers, rest)
    else some (none, c :: rest)

/-- The semantic version a text denotes. -/
def parse? (t : Text) : Option SemanticVersion := do
  let (major, t) ← readNumber? t
  let t ← afterDot? t
  let (minor, t) ← readNumber? t
  let t ← afterDot? t
  let (patch, t) ← readNumber? t
  let (pre, t) ← readOptional? '-' false t
  let (build, t) ← readOptional? '+' true t
  if t = [] then some ⟨major, minor, patch, pre, build⟩ else none

/-- The text of a semantic version. -/
def text (v : SemanticVersion) : Text :=
  let suffix (sign : Char) : Option Text → Text
    | some identifiers => sign :: identifiers
    | none => []
  Text.ofNat v.major ++ '.' :: Text.ofNat v.minor ++ '.' :: Text.ofNat v.patch ++
    suffix '-' v.pre ++ suffix '+' v.build

end SemanticVersion
end Nameplate
