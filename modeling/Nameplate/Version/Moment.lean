/-
# Moments

The stamp of a development version is the minute at which it was made: year,
month, day, hour and minute in digits. Years from 0 to 9999 take four digits;
any other year shows its sign.

Key definition: `Moment.stamp`.
-/
import Nameplate.Text

namespace Nameplate

/-- A point in local time, to the minute. -/
structure Moment where
  year : Int
  month : Nat
  day : Nat
  hour : Nat
  minute : Nat
  deriving DecidableEq, Repr

namespace Moment

/-- A number in at least `width` digits. -/
def pad (width n : Nat) : Text :=
  let digits := Text.ofNat n
  List.replicate (width - digits.length) '0' ++ digits

/-- A year in at least four digits, signed when it needs more than four or is negative. -/
def yearText (y : Int) : Text :=
  if 0 ≤ y ∧ y ≤ 9999 then pad 4 y.toNat
  else (if y < 0 then '-' else '+') :: pad 4 y.natAbs

/-- Year, month, day, hour and minute in digits. -/
def stamp (m : Moment) : Text :=
  yearText m.year ++ pad 2 m.month ++ pad 2 m.day ++ pad 2 m.hour ++ pad 2 m.minute

end Moment
end Nameplate
