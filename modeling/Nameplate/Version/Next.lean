/-
# The versions that follow

The base of a version is what stands before its first `-`. The version after a
base of three components has the next second component, and 0 for the third;
any other base is its own successor. A strict semantic version keeps what
follows its numbers. In any other base of three components the second counts
as 0 when it is no number, and the first is kept as it is written. Nothing
follows the greatest number of 64 bits.

Key definitions: `coreVersion`, `nextMinor?`, `upcoming`.
-/
import Nameplate.Version.Semantic
import Nameplate.Version.Template

namespace Nameplate

/-- The version without what follows its first `-`. -/
def coreVersion (version : Text) : Text :=
  match Text.splitAtFirst '-' version with
  | some (base, _) => base
  | none => version

theorem hyphen_notMem_coreVersion (version : Text) : '-' ∉ coreVersion version := by
  unfold coreVersion
  split
  next base rest h => exact (Text.eq_of_splitAtFirst h).2
  next h => exact (Text.splitAtFirst_eq_none_iff '-' version).1 h

theorem coreVersion_cons (c : Char) (t : Text) :
    coreVersion (c :: t) = if c = '-' then [] else c :: coreVersion t := by
  unfold coreVersion
  rw [Text.splitAtFirst]
  by_cases hc : c = '-'
  · rw [if_pos hc, if_pos hc]
  · rw [if_neg hc, if_neg hc]
    cases Text.splitAtFirst '-' t <;> rfl

/-- What comes before the first hyphen. -/
theorem coreVersion_eq_takeWhile (version : Text) :
    coreVersion version = version.takeWhile (· ≠ '-') := by
  induction version with
  | nil => rfl
  | cons c version ih =>
    rw [coreVersion_cons, ih]
    by_cases hc : c = '-'
    · rw [if_pos hc, List.takeWhile_cons_of_neg (by simp [hc])]
    · rw [if_neg hc, List.takeWhile_cons_of_pos (by simp [hc])]

theorem coreVersion_of_hyphen_notMem {base : Text} (h : '-' ∉ base) : coreVersion base = base := by
  rw [coreVersion, (Text.splitAtFirst_eq_none_iff '-' base).2 h]

/-- What follows the first hyphen is left out. -/
theorem coreVersion_append_hyphen {base : Text} (h : '-' ∉ base) (rest : Text) :
    coreVersion (base ++ '-' :: rest) = base := by
  rw [coreVersion, Text.splitAtFirst_append h]

theorem coreVersion_mark {base : Text} (h : '-' ∉ base) :
    coreVersion (base ++ Template.mark) = base :=
  coreVersion_append_hyphen h ['d']

/-- The number after `n`, if it has 64 bits. -/
def nextWord? (n : Nat) : Option Nat := if n + 1 < wordLimit then some (n + 1) else none

/-- The successor of a strict semantic version. -/
def SemanticVersion.next? (v : SemanticVersion) : Option SemanticVersion :=
  (nextWord? v.minor).map fun minor => { v with minor, patch := 0 }

/-- The successor of a base of three components, as a rule on their texts. -/
def nextComponents? (major minor : Text) : Option Text :=
  (nextWord? ((readWord? (Text.trim minor)).getD 0)).map fun n =>
    major ++ '.' :: (Text.ofNat n ++ ['.', '0'])

/-- The version after a base of three components; `none` for any other base. -/
def nextMinor? (base : Text) : Option Text :=
  match base.splitOn '.' with
  | [major, minor, _] =>
    match SemanticVersion.parse? base with
    | some v => v.next?.map SemanticVersion.text
    | none => nextComponents? major minor
  | _ => none

/-- The versions to move to. -/
structure Upcoming where
  release : Text
  development : Text
  deriving DecidableEq, Repr

/-- The versions after `version`: a release moves on to the successor, anything else is still to
be released as its own base; development goes on with the successor either way. -/
def upcoming (version : Text) (isRelease : Bool) : Upcoming :=
  let base := coreVersion version
  let next := (nextMinor? base).getD base
  ⟨if isRelease then next else base, next ++ Template.mark⟩

/-- Development goes on with the next release, marked, whether this is a release or not. -/
theorem upcoming_development (version : Text) (isRelease : Bool) :
    (upcoming version isRelease).development = (upcoming version true).release ++ Template.mark :=
  rfl

theorem upcoming_congr {v w : Text} (h : coreVersion v = coreVersion w) (isRelease : Bool) :
    upcoming v isRelease = upcoming w isRelease := by
  unfold upcoming
  rw [h]

end Nameplate
