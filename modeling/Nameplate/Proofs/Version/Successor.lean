/-
# The successor of a version

A base of three components has its successor by one of two rules: strict
semantic versions by their numbers, all others by the texts of their first two
components. Of a version without identifiers both rules make the same
(`nextComponents?_eq_next?`), so the second rule alone says what the successor
of a base without hyphen and plus is (`nextMinor?_eq_nextComponents?`).

Three components of digits, as many as one likes and with zeros in front or
not, keep the first as it is written, have the second go up by one and come to
0 in the third (`nextMinor?_digits`). The greatest number of 64 bits has no
successor. Digits beyond it are no number of 64 bits any more and count as 0,
so that the second component starts over from 1.

Key definitions: `FollowsDigits`, `SucceedsDigits`.
Key theorems: `nextMinor?_eq_nextComponents?`, `nextComponents?_eq_next?`,
`nextMinor?_digits`.
-/
import Nameplate.Proofs.Version.Components
import Nameplate.Proofs.Version.Value

namespace Nameplate

open Template

theorem Text.splitOn_components {major minor patch : Text} (hmajor : '.' ∉ major)
    (hminor : '.' ∉ minor) (hpatch : '.' ∉ patch) :
    (major ++ '.' :: (minor ++ '.' :: patch)).splitOn '.' = [major, minor, patch] := by
  have hsplit : (['.'].intercalate [major, minor, patch]).splitOn '.' = [major, minor, patch] :=
    List.splitOn_intercalate '.' (by simp [hmajor, hminor, hpatch]) (by simp)
  simpa [List.intercalate] using hsplit

theorem Text.dot_notMem_ofNat (n : Nat) : '.' ∉ Text.ofNat n :=
  (Text.allDigits_ofNat n).notMem (by decide)

/-! ### Numbers of 64 bits -/

theorem nextWord?_of_lt {n : Nat} (h : n + 1 < wordLimit) : nextWord? n = some (n + 1) :=
  if_pos h

theorem nextWord?_eq_none_iff {n : Nat} : nextWord? n = none ↔ wordLimit ≤ n + 1 := by
  unfold nextWord?
  by_cases h : n + 1 < wordLimit
  · simp [h]
  · simp [h, Nat.le_of_not_lt h]

/-- A component of digits is read as the number it denotes, unless that has more than 64 bits. -/
theorem readWord?_trim {t : Text} (hne : t ≠ []) (hdigits : AllDigits t) :
    readWord? (Text.trim t) = if ofDigits t < wordLimit then some (ofDigits t) else none := by
  rw [Text.trim_of_notBlank fun c hc => Text.isBlankChar_of_isDigit (hdigits c hc)]
  have hsign : ∀ rest, t = '+' :: rest → False := fun rest he =>
    absurd (hdigits '+' (by simp [he])) (by decide)
  have hall : t.all Char.isDigit = true := List.all_eq_true.2 hdigits
  unfold readWord?
  split
  next rest => exact (hsign rest rfl).elim
  next => simp only [ne_eq, hne, not_false_eq_true, hall, true_and]

/-! ### Two rules for one successor -/

namespace SemanticVersion

variable {v : SemanticVersion}

theorem splitOn_text (hpre : v.pre = none) (hbuild : v.build = none) :
    v.text.splitOn '.' = [Text.ofNat v.major, Text.ofNat v.minor, Text.ofNat v.patch] := by
  rw [text_eq, hpre, hbuild, introduced, introduced, List.append_nil, List.append_nil]
  exact Text.splitOn_components (Text.dot_notMem_ofNat _) (Text.dot_notMem_ofNat _)
    (Text.dot_notMem_ofNat _)

/-- **The rule for texts gives the successor of a semantic version**, the greatest one included. -/
theorem nextComponents?_ofNat (hpre : v.pre = none) (hbuild : v.build = none)
    (hword : v.minor < wordLimit) :
    nextComponents? (Text.ofNat v.major) (Text.ofNat v.minor) = v.next?.map text := by
  have hread := readWord?_trim (t := Text.ofNat v.minor) Nat.toDigits_ne_nil
    (Text.allDigits_ofNat v.minor)
  rw [ofDigits_ofNat, if_pos hword] at hread
  rw [nextComponents?, next?, hread, Option.map_map]
  refine congrArg (Option.map · (nextWord? v.minor)) (funext fun n => ?_)
  simp only [Function.comp_apply, text_eq, hpre, hbuild, introduced, List.append_nil]
  rfl

/-- A version without hyphen and plus has no identifiers. -/
theorem eq_none_of_notMem (hhyphen : '-' ∉ v.text) (hplus : '+' ∉ v.text) :
    v.pre = none ∧ v.build = none := by
  obtain ⟨major, minor, patch, pre, build⟩ := v
  cases pre <;> cases build <;> simp_all [text_eq, introduced]

end SemanticVersion

/-- **A base without hyphen and plus has the successor of its components**, whichever rule is
followed. -/
theorem nextMinor?_eq_nextComponents? {base major minor patch : Text}
    (hsplit : base.splitOn '.' = [major, minor, patch]) (hhyphen : '-' ∉ base)
    (hplus : '+' ∉ base) : nextMinor? base = nextComponents? major minor := by
  rw [nextMinor?, hsplit]
  cases hparse : SemanticVersion.parse? base with
  | none => rfl
  | some v =>
    obtain ⟨rfl, hword⟩ := SemanticVersion.eq_text_of_parse? hparse
    obtain ⟨hpre, hbuild⟩ := SemanticVersion.eq_none_of_notMem hhyphen hplus
    rw [SemanticVersion.splitOn_text hpre hbuild] at hsplit
    obtain ⟨rfl, rfl, -⟩ : Text.ofNat v.major = major ∧ Text.ofNat v.minor = minor ∧
        Text.ofNat v.patch = patch := by
      simpa using hsplit
    exact (SemanticVersion.nextComponents?_ofNat hpre hbuild hword).symm

/-- **Both rules give a semantic version the same successor**, or none if its second number is the
greatest of 64 bits. -/
theorem nextComponents?_eq_next? {base : Text} {v : SemanticVersion}
    (h : SemanticVersion.parse? base = some v) (hpre : v.pre = none) (hbuild : v.build = none) :
    ∃ major minor patch, base.splitOn '.' = [major, minor, patch] ∧
      nextComponents? major minor = v.next?.map SemanticVersion.text ∧
      nextMinor? base = v.next?.map SemanticVersion.text ∧
      (nextComponents? major minor = none ↔ v.minor + 1 = wordLimit) := by
  obtain ⟨hbase, hword⟩ := SemanticVersion.eq_text_of_parse? h
  have hsplit : base.splitOn '.' = _ := hbase ▸ SemanticVersion.splitOn_text hpre hbuild
  have hagree := SemanticVersion.nextComponents?_ofNat hpre hbuild hword
  refine ⟨_, _, _, hsplit, hagree, ?_, ?_⟩
  · rw [nextMinor?, hsplit, h]
  · rw [hagree, SemanticVersion.next?, Option.map_eq_none_iff, Option.map_eq_none_iff,
      nextWord?_eq_none_iff]
    omega

/-- The greatest version that has a successor, and the one after it. -/
theorem nextComponents?_eq_next?_last :
    (∃ major minor patch, "10.18446744073709551614.3".toList.splitOn '.' = [major, minor, patch] ∧
      nextComponents? major minor = some "10.18446744073709551615.0".toList) ∧
    ∃ major minor patch, "10.18446744073709551615.3".toList.splitOn '.' = [major, minor, patch] ∧
      nextComponents? major minor = none := by
  have hlast : SemanticVersion.parse? "10.18446744073709551614.3" =
      some ⟨10, 18446744073709551614, 3, none, none⟩ := by decide +kernel
  have hnone : SemanticVersion.parse? "10.18446744073709551615.3" =
      some ⟨10, 18446744073709551615, 3, none, none⟩ := by decide +kernel
  obtain ⟨major, minor, patch, hsplit, hnext, -⟩ := nextComponents?_eq_next? hlast rfl rfl
  obtain ⟨major', minor', patch', hsplit', -, -, hiff⟩ := nextComponents?_eq_next? hnone rfl rfl
  refine ⟨⟨major, minor, patch, hsplit, ?_⟩, major', minor', patch', hsplit', hiff.2 rfl⟩
  rw [hnext]
  decide +kernel

/-! ### Three components of digits -/

/-- `next` is the version after one with the components `major` and `minor`, whatever number the
digits of `minor` denote. -/
def FollowsDigits (major minor next : Text) : Prop :=
  ∃ second, next.splitOn '.' = [major, second, ['0']] ∧ second ≠ [] ∧ AllDigits second ∧
    ofDigits second = ofDigits minor + 1

/-- What comes after a base of digits with the components `major` and `minor`. -/
structure SucceedsDigits (major minor : Text) (next : Option Text) : Prop where
  follows : ofDigits minor < wordLimit → ∀ t ∈ next, FollowsDigits major minor t
  eq_none_iff : next = none ↔ ofDigits minor + 1 = wordLimit
  startsOver : wordLimit ≤ ofDigits minor → next = some (major ++ ['.', '1', '.', '0'])

theorem followsDigits_succ {major minor : Text} (hmajor : AllDigits major) :
    FollowsDigits major minor
      (major ++ '.' :: (Text.ofNat (ofDigits minor + 1) ++ ['.', '0'])) := by
  refine ⟨_, Text.splitOn_components (hmajor.notMem (by decide)) (Text.dot_notMem_ofNat _)
    (by decide), Nat.toDigits_ne_nil, Text.allDigits_ofNat _, ofDigits_ofNat _⟩

theorem nextComponents?_digits {major minor : Text} (hmajor : AllDigits major) (hne : minor ≠ [])
    (hminor : AllDigits minor) : SucceedsDigits major minor (nextComponents? major minor) := by
  rw [nextComponents?, readWord?_trim hne hminor]
  by_cases hword : ofDigits minor < wordLimit
  · rw [if_pos hword, Option.getD_some]
    refine ⟨fun _ t ht => ?_, ?_, fun hle => absurd hword (Nat.not_lt.2 hle)⟩
    · obtain ⟨n, hn, rfl⟩ := Option.map_eq_some_iff.1 ht
      by_cases hnext : ofDigits minor + 1 < wordLimit
      · rw [nextWord?_of_lt hnext] at hn
        exact Option.some.inj hn ▸ followsDigits_succ hmajor
      · rw [nextWord?_eq_none_iff.2 (Nat.not_lt.1 hnext)] at hn
        cases hn
    · rw [Option.map_eq_none_iff, nextWord?_eq_none_iff]
      omega
  · -- digits that are no number of 64 bits count as 0
    rw [if_neg hword, Option.getD_none, nextWord?_of_lt (by decide)]
    refine ⟨fun hlt => absurd hlt hword, ?_, fun _ => rfl⟩
    simp only [Option.map_some, reduceCtorEq, false_iff]
    omega

/-- **After three components of digits** comes the version whose second component is one more, up
to the greatest number of 64 bits. -/
theorem nextMinor?_digits {base major minor patch : Text}
    (hbase : base.splitOn '.' = [major, minor, patch])
    (hdigits : ∀ t ∈ [major, minor, patch], t ≠ [] ∧ AllDigits t) :
    SucceedsDigits major minor (nextMinor? base) := by
  have hmajor := hdigits major (by simp)
  have hminor := hdigits minor (by simp)
  have hpatch := hdigits patch (by simp)
  have hnotMem {c : Char} (hc : c.isDigit = false) (hdot : c ≠ '.') : c ∉ base := by
    rw [← Text.eq_of_splitOn hbase]
    simp [hmajor.2.notMem hc, hminor.2.notMem hc, hpatch.2.notMem hc, hdot]
  rw [nextMinor?_eq_nextComponents? hbase (hnotMem (by decide) (by decide))
    (hnotMem (by decide) (by decide))]
  exact nextComponents?_digits hmajor.2 hminor.1 hminor.2

/-- With zeros in front, and just below the greatest number. -/
theorem nextMinor?_digits_zeros :
    nextMinor? "007.018446744073709551614.5" = some "007.18446744073709551615.0".toList ∧
      FollowsDigits "007" "018446744073709551614" "007.18446744073709551615.0" := by
  have hnext : nextMinor? "007.018446744073709551614.5" =
      some "007.18446744073709551615.0".toList := by
    decide +kernel
  have hdigits : ∀ t ∈ ["007".toList, "018446744073709551614".toList, "5".toList],
      t ≠ [] ∧ t.all Char.isDigit = true := by
    decide
  have hbase : "007.018446744073709551614.5".toList.splitOn '.' =
      ["007".toList, "018446744073709551614".toList, "5".toList] := by
    decide
  have hsucceeds := nextMinor?_digits hbase fun t ht =>
    (hdigits t ht).imp_right List.all_eq_true.1
  exact ⟨hnext, hsucceeds.follows (by decide) _ hnext⟩

/-- Not every base of digits is followed by one with a greater second component: beyond 64 bits it
starts over. -/
theorem nextMinor?_digits_startsOver :
    ¬ ∀ base major minor patch next : Text, base.splitOn '.' = [major, minor, patch] →
      (∀ t ∈ [major, minor, patch], t ≠ [] ∧ AllDigits t) → nextMinor? base = some next →
      FollowsDigits major minor next := by
  intro h
  have hdigits : ∀ t ∈ ["1".toList, "18446744073709551616".toList, "0".toList],
      t ≠ [] ∧ t.all Char.isDigit = true := by
    decide
  obtain ⟨second, hsplit, -, -, hsecond⟩ := h "1.18446744073709551616.0" "1" "18446744073709551616"
    "0" "1.1.0" (by decide) (fun t ht => (hdigits t ht).imp_right List.all_eq_true.1)
    (by decide +kernel)
  obtain rfl : ['1'] = second := by
    have hparts : "1.1.0".toList.splitOn '.' = [['1'], ['1'], ['0']] := by decide
    rw [hparts] at hsplit
    simpa using hsplit
  revert hsecond
  decide

end Nameplate
