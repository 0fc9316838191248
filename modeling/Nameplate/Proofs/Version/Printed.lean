/-
# Printing undoes reading

A strict semantic version is printed character by character as it was read
(`SemanticVersion.eq_text_of_parse?`). Its numbers are read without leading
zeros, and of all runs of digits with one value just the one without leading
zeros is printed (`Text.ofNat_ofDigits`); its identifiers are kept as they are.

So whatever a version is found to hold, the text that it was read from held it
already. What is put in the place of the second and the third number adds
digits and nothing else, whence a successor has no characters but digits, dots
and those of the version it follows (`mem_nextMinor?`).

Key theorems: `Text.ofNat_ofDigits`, `SemanticVersion.eq_text_of_parse?`,
`mem_nextMinor?`.
-/
import Nameplate.Version.Next

namespace Nameplate

/-! ### Digits -/

theorem digitChar_of_isDigit {c : Char} (h : c.isDigit = true) :
    c.toNat - '0'.toNat < 10 ∧ Nat.digitChar (c.toNat - '0'.toNat) = c := by
  have hrange : 48 ≤ c.toNat ∧ c.toNat ≤ 57 := Char.isDigit_iff_toNat.1 h
  have hzero : '0'.toNat = 48 := rfl
  have hlt : c.toNat - '0'.toNat < 10 := by omega
  refine ⟨hlt, Char.toNat_inj.1 ?_⟩
  rw [Nat.toNat_digitChar_of_lt_ten hlt]
  omega

/-- Digits behind a number other than 0 are the last digits of a greater one. -/
theorem Text.ofNat_append {digits : Text} (hdigits : ∀ c ∈ digits, c.isDigit = true) {n : Nat}
    (hn : 0 < n) : Text.ofNat n ++ digits = Text.ofNat (Nat.ofDigitChars 10 digits n) := by
  induction digits generalizing n with
  | nil => rw [List.append_nil, Nat.ofDigitChars_nil]
  | cons c digits ih =>
    obtain ⟨hlt, hc⟩ := digitChar_of_isDigit (hdigits c List.mem_cons_self)
    have hlonger : ofNat n ++ [c] = ofNat (10 * n + (c.toNat - '0'.toNat)) := by
      have hall := Nat.toDigits_append_toDigits (by decide : 1 < 10) hn hlt
      rwa [Nat.toDigits_of_lt_base hlt, hc] at hall
    have hrest : ∀ x ∈ digits, x.isDigit = true := fun x hx => hdigits x (List.mem_cons_of_mem c hx)
    calc ofNat n ++ c :: digits
        = ofNat (10 * n + (c.toNat - '0'.toNat)) ++ digits := by
          rw [← hlonger, List.append_assoc, List.singleton_append]
      _ = ofNat (Nat.ofDigitChars 10 digits (10 * n + (c.toNat - '0'.toNat))) :=
          ih hrest (by omega)
      _ = ofNat (Nat.ofDigitChars 10 (c :: digits) n) := by rw [Nat.ofDigitChars_cons]

/-- **A run of digits without leading zeros is the one its number is printed in.** -/
theorem Text.ofNat_ofDigits {digits : Text} (hdigits : ∀ c ∈ digits, c.isDigit = true)
    (hne : digits ≠ []) (hzero : digits.head? = some '0' → digits = ['0']) :
    Text.ofNat (ofDigits digits) = digits := by
  cases digits with
  | nil => exact absurd rfl hne
  | cons c digits =>
    by_cases hc : c = '0'
    · rw [hzero (congrArg some hc)]
      rfl
    · obtain ⟨hlt, hprinted⟩ := digitChar_of_isDigit (hdigits c List.mem_cons_self)
      have hpos : 0 < c.toNat - '0'.toNat := by
        refine Nat.pos_of_ne_zero fun h0 => hc ?_
        rw [← hprinted, h0]
        rfl
      have hrest : ∀ x ∈ digits, x.isDigit = true := fun x hx =>
        hdigits x (List.mem_cons_of_mem c hx)
      calc ofNat (ofDigits (c :: digits))
          = ofNat (Nat.ofDigitChars 10 digits (c.toNat - '0'.toNat)) := by
            rw [ofDigits, Nat.ofDigitChars_cons, Nat.mul_zero, Nat.zero_add]
        _ = ofNat (c.toNat - '0'.toNat) ++ digits := (ofNat_append hrest hpos).symm
        _ = c :: digits := by
            rw [ofNat, Nat.toDigits_of_lt_base hlt, hprinted, List.singleton_append]

namespace SemanticVersion

variable {t rest : Text} {n : Nat} {v : SemanticVersion}

/-! ### What each reader has read -/

theorem eq_of_readNumber? (h : readNumber? t = some (n, rest)) :
    t = Text.ofNat n ++ rest ∧ n < wordLimit := by
  simp only [readNumber?] at h
  by_cases hnil : t.takeWhile Char.isDigit = []
  · rw [if_pos hnil] at h
    cases h
  rw [if_neg hnil] at h
  by_cases hzero : (t.takeWhile Char.isDigit).head? = some '0' ∧ t.takeWhile Char.isDigit ≠ ['0']
  · rw [if_pos hzero] at h
    cases h
  rw [if_neg hzero] at h
  by_cases hlt : ofDigits (t.takeWhile Char.isDigit) < wordLimit
  · rw [if_pos hlt] at h
    obtain ⟨rfl, rfl⟩ := Prod.mk.inj (Option.some.inj h)
    have hprinted : Text.ofNat (ofDigits (t.takeWhile Char.isDigit)) = t.takeWhile Char.isDigit :=
      Text.ofNat_ofDigits (List.all_eq_true.1 List.all_takeWhile) hnil
        fun hd => Classical.not_not.1 fun hne => hzero ⟨hd, hne⟩
    rw [hprinted, List.takeWhile_append_dropWhile]
    exact ⟨rfl, hlt⟩
  · rw [if_neg hlt] at h
    cases h

theorem eq_of_afterDot? (h : afterDot? t = some rest) : t = '.' :: rest := by
  unfold afterDot? at h
  split at h
  · rw [Option.some.inj h]
  · cases h

theorem eq_of_readIdentifiers? {zeros : Bool} {identifiers : Text}
    (h : readIdentifiers? zeros t = some (identifiers, rest)) : t = identifiers ++ rest := by
  simp only [readIdentifiers?] at h
  split at h
  · obtain ⟨rfl, rfl⟩ := Prod.mk.inj (Option.some.inj h)
    rw [List.takeWhile_append_dropWhile]
  · cases h

/-- Identifiers behind the sign that introduces them, or nothing. -/
def introduced (sign : Char) : Option Text → Text
  | some identifiers => sign :: identifiers
  | none => []

theorem eq_of_readOptional? {sign : Char} {zeros : Bool} {identifiers : Option Text}
    (h : readOptional? sign zeros t = some (identifiers, rest)) :
    t = introduced sign identifiers ++ rest := by
  unfold readOptional? at h
  split at h
  next =>
    obtain ⟨rfl, rfl⟩ := Prod.mk.inj (Option.some.inj h)
    rfl
  next c t =>
    by_cases hc : c = sign
    · rw [if_pos hc] at h
      obtain ⟨⟨found, rest'⟩, hread, he⟩ := Option.map_eq_some_iff.1 h
      obtain ⟨rfl, rfl⟩ := Prod.mk.inj he
      rw [introduced, List.cons_append, eq_of_readIdentifiers? hread, hc]
    · rw [if_neg hc] at h
      obtain ⟨rfl, rfl⟩ := Prod.mk.inj (Option.some.inj h)
      rfl

/-! ### The version as a whole -/

theorem text_eq (v : SemanticVersion) :
    v.text = Text.ofNat v.major ++ '.' :: (Text.ofNat v.minor ++ '.' :: (Text.ofNat v.patch ++
      (introduced '-' v.pre ++ introduced '+' v.build))) := by
  obtain ⟨major, minor, patch, pre, build⟩ := v
  cases pre <;> cases build <;> simp [text, introduced]

/-- **A semantic version is printed as it was read**, and its second number has 64 bits. -/
theorem eq_text_of_parse? (h : parse? t = some v) : t = v.text ∧ v.minor < wordLimit := by
  simp only [parse?, Option.bind_eq_bind, Option.bind_eq_some_iff, Prod.exists] at h
  obtain ⟨major, t₁, h₁, t₂, h₂, minor, t₃, h₃, t₄, h₄, patch, t₅, h₅, pre, t₆, h₆, build, t₇, h₇,
    hend⟩ := h
  by_cases hnil : t₇ = []
  · rw [if_pos hnil] at hend
    obtain rfl := Option.some.inj hend
    obtain ⟨hmajor, -⟩ := eq_of_readNumber? h₁
    obtain ⟨hminor, hlt⟩ := eq_of_readNumber? h₃
    obtain ⟨hpatch, -⟩ := eq_of_readNumber? h₅
    have hbuild := eq_of_readOptional? h₇
    rw [hnil, List.append_nil] at hbuild
    refine ⟨?_, hlt⟩
    rw [text_eq, hmajor, eq_of_afterDot? h₂, hminor, eq_of_afterDot? h₄, hpatch,
      eq_of_readOptional? h₆, hbuild]
  · rw [if_neg hnil] at hend
    cases hend

end SemanticVersion

/-! ### The characters of a successor -/

theorem Text.eq_of_splitOn {t major minor patch : Text}
    (h : t.splitOn '.' = [major, minor, patch]) : major ++ '.' :: (minor ++ '.' :: patch) = t := by
  have hjoin : ['.'].intercalate (t.splitOn '.') = t := List.intercalate_splitOn '.'
  rw [h] at hjoin
  simpa [List.intercalate] using hjoin

/-- **A successor has no characters but digits, dots and those of the version it follows.** -/
theorem mem_nextMinor? {base next : Text} (h : nextMinor? base = some next) {c : Char}
    (hc : c ∈ next) : c.isDigit = true ∨ c = '.' ∨ c ∈ base := by
  unfold nextMinor? at h
  split at h
  next major minor patch hsplit =>
    cases hp : SemanticVersion.parse? base with
    | some v =>
      rw [hp] at h
      obtain ⟨w, hw, rfl⟩ := Option.map_eq_some_iff.1 h
      obtain ⟨n, -, rfl⟩ := Option.map_eq_some_iff.1 hw
      obtain ⟨hbase, -⟩ := SemanticVersion.eq_text_of_parse? hp
      rw [hbase]
      simp only [SemanticVersion.text_eq, List.mem_append, List.mem_cons] at hc ⊢
      rcases hc with hmajor | rfl | hminor | rfl | hpatch | hsuffix
      · exact Or.inl (Text.isDigit_of_mem_ofNat hmajor)
      · exact Or.inr (Or.inl rfl)
      · exact Or.inl (Text.isDigit_of_mem_ofNat hminor)
      · exact Or.inr (Or.inl rfl)
      · exact Or.inl (Text.isDigit_of_mem_ofNat hpatch)
      · simp [hsuffix]
    | none =>
      rw [hp] at h
      obtain ⟨n, -, rfl⟩ := Option.map_eq_some_iff.1 h
      have hbase := Text.eq_of_splitOn hsplit
      simp only [List.mem_append, List.mem_cons, List.not_mem_nil, or_false] at hc
      rcases hc with hmajor | rfl | hminor | rfl | rfl
      · exact Or.inr (Or.inr (hbase ▸ List.mem_append_left _ hmajor))
      · exact Or.inr (Or.inl rfl)
      · exact Or.inl (Text.isDigit_of_mem_ofNat hminor)
      · exact Or.inr (Or.inl rfl)
      · exact Or.inl (by decide)
  next => cases h

end Nameplate
