/-
# Blanks

Trimming takes blanks from the two ends of a text and nothing else: whatever is
left was there before (`Text.trim_subset`), and no other character is lost
(`Text.mem_trim`). So a text that is not blank is trimmed to one that is not
blank (`Text.isBlank_of_nonBlank?`), and one without blanks to itself. A second
trimming finds nothing to take (`Text.trim_trim`).

Key theorems: `Text.trim_subset`, `Text.mem_trim`, `Text.mem_nonBlank?_iff`,
`Text.isBlank_of_nonBlank?`, `Text.nonBlank?_of_notBlank`, `Text.trim_trim`.
-/
import Mathlib.Data.List.DropRight
import Nameplate.Text

namespace Nameplate
namespace Text

/-! ### Blank texts -/

theorem isBlank_append (s t : Text) : isBlank (s ++ t) = (isBlank s && isBlank t) :=
  List.all_append

theorem isBlank_eq_false_of_mem {c : Char} {t : Text} (hc : c ∈ t) (h : isBlankChar c = false) :
    isBlank t = false := by
  rw [isBlank, List.all_eq_false]
  exact ⟨c, hc, by simp [h]⟩

theorem exists_of_isBlank_eq_false {t : Text} (h : isBlank t = false) :
    ∃ c ∈ t, isBlankChar c = false := by
  obtain ⟨c, hc, hnot⟩ := List.all_eq_false.1 h
  exact ⟨c, hc, by simpa using hnot⟩

theorem isBlankChar_of_isDigit {c : Char} (h : c.isDigit = true) : isBlankChar c = false := by
  have hd : 48 ≤ c.toNat ∧ c.toNat ≤ 57 := Char.isDigit_iff_toNat.1 h
  simp only [isBlankChar, blankRanges, List.any_cons, List.any_nil, Bool.or_false,
    Bool.or_eq_false_iff, Bool.and_eq_false_iff, decide_eq_false_iff_not]
  omega

/-! ### Trimming -/

theorem trim_ne_nil_iff (t : Text) : trim t ≠ [] ↔ isBlank t = false := by
  rw [ne_eq, trim_eq_nil_iff, Bool.not_eq_true]

/-- A text without blanks is not changed by trimming. -/
theorem trim_of_notBlank {t : Text} (h : ∀ c ∈ t, isBlankChar c = false) : trim t = t := by
  have hstart (s : Text) (hs : ∀ c ∈ s, isBlankChar c = false) : s.dropWhile isBlankChar = s := by
    cases s with
    | nil => rfl
    | cons c s => rw [List.dropWhile_cons, hs c List.mem_cons_self, if_neg Bool.false_ne_true]
  rw [trim, trimEnd, trimStart, hstart t h, hstart t.reverse (by simpa using h),
    List.reverse_reverse]

theorem nonBlank?_of_notBlank {t : Text} (hne : t ≠ []) (h : ∀ c ∈ t, isBlankChar c = false) :
    nonBlank? t = some t := by
  have hblank : isBlank t = false := by
    rw [← trim_ne_nil_iff, trim_of_notBlank h]
    exact hne
  rw [nonBlank?, hblank, trim_of_notBlank h, if_neg Bool.false_ne_true]

theorem trim_subset (t : Text) : trim t ⊆ t := by
  intro c hc
  have hstart := (List.dropWhile_sublist isBlankChar).subset (List.mem_reverse.1 hc)
  exact (List.dropWhile_sublist isBlankChar).subset (List.mem_reverse.1 hstart)

theorem nonBlank?_subset {t s : Text} (h : nonBlank? t = some s) : s ⊆ t := by
  unfold nonBlank? at h
  split at h
  · cases h
  · rw [← Option.some.inj h]
    exact trim_subset t

theorem mem_trimStart {c : Char} {t : Text} (hc : c ∈ t) (h : isBlankChar c = false) :
    c ∈ trimStart t := by
  rw [← List.takeWhile_append_dropWhile (p := isBlankChar) (l := t)] at hc
  rcases List.mem_append.1 hc with hblank | hrest
  · have hall := List.all_eq_true.1 List.all_takeWhile c hblank
    rw [h] at hall
    exact absurd hall Bool.false_ne_true
  · exact hrest

/-- Only blanks are lost. -/
theorem mem_trim {c : Char} {t : Text} (hc : c ∈ t) (h : isBlankChar c = false) : c ∈ trim t := by
  have hstart := List.mem_reverse.2 (mem_trimStart hc h)
  exact List.mem_reverse.2 (mem_trimStart hstart h)

/-- A character that is not blank is in the trimmed text just when it is in the text. -/
theorem mem_nonBlank?_iff {c : Char} (h : isBlankChar c = false) (t : Text) :
    (∃ s, nonBlank? t = some s ∧ c ∈ s) ↔ c ∈ t := by
  constructor
  · rintro ⟨s, hs, hc⟩
    exact nonBlank?_subset hs hc
  · intro hc
    refine ⟨trim t, ?_, mem_trim hc h⟩
    rw [nonBlank?, isBlank_eq_false_of_mem hc h, if_neg Bool.false_ne_true]

/-- A text that is not blank is not blank when it is trimmed. -/
theorem isBlank_of_nonBlank? {t s : Text} (h : nonBlank? t = some s) : isBlank s = false := by
  unfold nonBlank? at h
  split at h
  next => cases h
  next hblank =>
    obtain ⟨c, hc, hchar⟩ := exists_of_isBlank_eq_false (Bool.eq_false_iff.2 hblank)
    rw [← Option.some.inj h]
    exact isBlank_eq_false_of_mem (mem_trim hc hchar) hchar

/-- A trimmed text does not begin with a blank. -/
theorem trimStart_trim (t : Text) : trimStart (trim t) = trim t := by
  cases htrim : trim t with
  | nil => rfl
  | cons c rest =>
    have hstart : c :: rest <+: t.dropWhile isBlankChar := by
      rw [← htrim]
      exact List.rdropWhile_prefix isBlankChar _
    obtain ⟨tail, htail⟩ := hstart
    have hhead := List.head?_dropWhile_not isBlankChar t
    rw [← htail, List.cons_append, List.head?_cons] at hhead
    rw [trimStart, List.dropWhile_cons, if_neg (by simpa using hhead)]

theorem trim_trim (t : Text) : trim (trim t) = trim t := by
  rw [trim, trimStart_trim]
  exact List.rdropWhile_idempotent isBlankChar (trimStart t)

end Text
end Nameplate
