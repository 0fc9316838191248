/-
# Numbers and moments in TOML

Which runs of characters are numbers, and which are dates and times. Integers
must fit in 64 bits with a sign, and a decimal number must not be so large
that it rounds to infinity in double precision. Underscores stand between
digits only. Dates are those of the calendar; a second may be 60.

Key definitions: `Toml.isNumber`, `Toml.isMoment`.
-/
import Nameplate.Version.Semantic

namespace Nameplate
namespace Toml

/-- Whether a text is digits of the given kind, with single underscores between them. -/
def isSpaced (isDigit : Char → Bool) (t : Text) : Bool :=
  (t.splitOn '_').all fun run => !run.isEmpty && run.all isDigit

/-- A text without underscores. -/
def unspaced (t : Text) : Text := t.filter (· ≠ '_')

/-- A text without a sign at its beginning. -/
def unsigned : Text → Text
  | '+' :: rest => rest
  | '-' :: rest => rest
  | t => t

/-- Whether a text is the decimal digits of an integer, without leading zeros. -/
def isPlain (t : Text) : Bool :=
  isSpaced Char.isDigit t && (t.head? != some '0' || t.length == 1)

/-- The value of a digit in a base of at most 16. -/
def digitValue (c : Char) : Nat :=
  if c.isDigit then c.toNat - '0'.toNat else c.toLower.toNat - 'a'.toNat + 10

/-- The number that digits of a base denote. -/
def ofBase (base : Nat) (digits : Text) : Nat :=
  digits.foldl (fun n c => n * base + digitValue c) 0

/-- The digits of a base. -/
def isBaseDigit (base : Nat) (c : Char) : Bool :=
  if base = 16 then c.isDigit || ('a' ≤ c.toLower && c.toLower ≤ 'f')
  else c.isDigit && c.toNat - '0'.toNat < base

/-- The least number of 64 bits whose first bit is set. -/
def integerLimit : Nat := Nat.pow 2 63

/-- Whether a text is an integer in the base its beginning names. -/
def isBased (base : Nat) (t : Text) : Bool :=
  isSpaced (isBaseDigit base) t && ofBase base (unspaced t) < integerLimit

/-- Whether a text is an integer. -/
def isInteger (t : Text) : Bool :=
  match t with
  | '0' :: 'x' :: rest => isBased 16 rest
  | '0' :: 'o' :: rest => isBased 8 rest
  | '0' :: 'b' :: rest => isBased 2 rest
  | '-' :: rest => isPlain rest && ofDigits (unspaced rest) ≤ integerLimit
  | '+' :: rest => isPlain rest && ofDigits (unspaced rest) < integerLimit
  | _ => isPlain t && ofDigits (unspaced t) < integerLimit

/-- The least number that rounds to infinity in double precision. -/
def overflow : Nat := Nat.pow 2 1024 - Nat.pow 2 970

/-- Whether `digits · 10 ^ exponent` stays below `overflow`. What the number of digits alone
decides is decided by it, so no great power is ever computed. -/
def isFinite (digits : Nat) (exponent : Int) : Bool :=
  let magnitude := exponent + (Text.ofNat digits).length
  if digits = 0 || magnitude < 300 then true
  else if 320 < magnitude then false
  else if 0 ≤ exponent then digits * Nat.pow 10 exponent.toNat < overflow
  else digits < overflow * Nat.pow 10 exponent.natAbs

/-- The texts before and after the first `e` of either case. -/
def splitExponent (t : Text) : Text × Option Text :=
  let (before, after) := t.span fun c => c != 'e' && c != 'E'
  (before, match after with | _ :: rest => some rest | [] => none)

/-- The value of an exponent, if the text is one. -/
def exponent? (t : Text) : Option Int :=
  if isSpaced Char.isDigit (unsigned t) then
    let n : Int := ofDigits (unspaced (unsigned t))
    some (if t.head? = some '-' then -n else n)
  else none

/-- Whether a text is a decimal number with a fraction or an exponent. -/
def isDecimal (t : Text) : Bool :=
  let (significand, exponent) := splitExponent (unsigned t)
  let power := match exponent with
    | some e => exponent? e
    | none => some 0
  match power, Text.splitAtFirst '.' significand with
  | some power, some (whole, fraction) =>
    isPlain whole && isSpaced Char.isDigit fraction &&
      isFinite (ofDigits (unspaced whole ++ unspaced fraction)) (power - (unspaced fraction).length)
  | some power, none =>
    exponent.isSome && isPlain significand && isFinite (ofDigits (unspaced significand)) power
  | none, _ => false

/-- Whether a text is a number. -/
def isNumber (t : Text) : Bool :=
  isInteger t || isDecimal t || unsigned t = "inf".toList || unsigned t = "nan".toList

/-- The number that exactly `n` digits at the beginning denote, and the rest. -/
def readDigits? (n : Nat) (t : Text) : Option (Nat × Text) :=
  let digits := t.take n
  if digits.length = n ∧ digits.all Char.isDigit then some (ofDigits digits, t.drop n) else none

/-- The rest of a text that begins with `c`. -/
def after? (c : Char) : Text → Option Text
  | x :: rest => if x = c then some rest else none
  | [] => none

/-- The number of days of a month. -/
def daysIn (year month : Nat) : Nat :=
  if month = 2 then
    if year % 4 = 0 && (year % 100 != 0 || year % 400 = 0) then 29 else 28
  else if month = 4 || month = 6 || month = 9 || month = 11 then 30
  else 31

/-- What follows a date. -/
def skipDate? (t : Text) : Option Text := do
  let (year, t) ← readDigits? 4 t
  let (month, t) ← readDigits? 2 (← after? '-' t)
  let (day, t) ← readDigits? 2 (← after? '-' t)
  if 1 ≤ month ∧ month ≤ 12 ∧ 1 ≤ day ∧ day ≤ daysIn year month then some t else none

/-- What follows the fraction of a second, if there is one. -/
def skipFraction? (t : Text) : Option Text :=
  match t with
  | '.' :: c :: rest => if c.isDigit then some (rest.dropWhile Char.isDigit) else none
  | '.' :: [] => none
  | _ => some t

/-- What follows a time; seconds may be left out. -/
def skipTime? (t : Text) : Option Text := do
  let (hour, t) ← readDigits? 2 t
  let (minute, t) ← readDigits? 2 (← after? ':' t)
  if 23 < hour ∨ 59 < minute then none
  else
    match t with
    | ':' :: t =>
      let (second, t) ← readDigits? 2 t
      if 60 < second then none else skipFraction? t
    | _ => some t

/-- What follows an offset from universal time, if there is one. -/
def skipOffset? (t : Text) : Option Text :=
  match t with
  | [] => some []
  | sign :: rest =>
    if sign = 'Z' ∨ sign = 'z' then some rest
    else if sign = '+' ∨ sign = '-' then do
      let (hour, t) ← readDigits? 2 rest
      let (minute, t) ← readDigits? 2 (← after? ':' t)
      if 23 < hour ∨ 59 < minute then none else some t
    else some t

/-- Whether a character may stand between a date and a time. -/
def joinsDate (c : Char) : Bool := c == 'T' || c == 't' || c == ' '

/-- Whether a text is a date, a time or both. -/
def isMoment (t : Text) : Bool :=
  match skipDate? t with
  | some [] => true
  | some (c :: rest) => joinsDate c && ((skipTime? rest).bind skipOffset?) == some []
  | none => skipTime? t == some []

end Toml
end Nameplate
