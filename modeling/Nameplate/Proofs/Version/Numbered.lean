/-
# Numbered files

A file is numbered when the values of its semantic versions have three
components, marked or not, and those of its other version lines have four
(`Profile.IsNumbered`). Nothing is to be filled in, so there are few values
that stamping can put on a version line (`Revalued`), and with versions of
three components to release or to start, each has the components before its
hyphen that the line should have (`Revalued.components_coreVersion`).

Whatever the date, no gate of a language is found in such a value
(`IsStamped.contains_eq_false`). So a line is a version line before and after
the stamping or neither time, and a new development can be started on the
stamped file too (`canStart_stamped`).

Key definitions: `Profile.IsNumbered`, `Revalued`, `Profile.CanStart`.
Key theorems: `Revalued.components_coreVersion`, `canStart_stamped`.
-/
import Mathlib.Data.List.Forall2
import Nameplate.Proofs.Version.Components
import Nameplate.Proofs.Version.Outcome
import Nameplate.Proofs.Version.Release

namespace Nameplate

open Template

/-- A version line with the value it should have: three components and perhaps a mark for a semantic
version, four components for any other. -/
structure Quoted.IsNumbered (semantic : Bool) (q : Quoted) : Prop where
  before : '"' ∉ q.before
  after : '"' ∉ q.after
  given : IsGiven q.value
  number : semantic = false → IsNumber q.value
  components_eq : q.value.components = if semantic then 3 else 4

/-- A file whose version lines have the values they should have. -/
def Profile.IsNumbered (p : Profile) (content : Text) : Prop :=
  ∀ g ∈ p.groups content, g.declares = true →
    ∃ q : Quoted, q.IsNumbered (Text.contains p.markers.semanticVersion g.text) ∧ g.text = q.line

/-- What is given to release or to start, if anything, is a version. -/
structure StampOptions.GivesVersions (o : StampOptions) : Prop where
  releaseVersion : ∀ v, o.releaseVersion.bind Text.nonBlank? = some v → IsGiven v
  newDevelopment : ∀ v, o.newDevelopment = some v → IsGiven v

/-- It is a version of three components. -/
structure StampOptions.GivesThree (o : StampOptions) : Prop extends o.GivesVersions where
  releaseThree : ∀ v, o.releaseVersion.bind Text.nonBlank? = some v → v.components = 3
  newThree : ∀ v, o.newDevelopment = some v → v.components = 3

/-! ### Given versions -/

namespace Template

theorem IsGiven.placeholder_notMem {v : Text} (h : IsGiven v) : placeholder ∉ v := by
  cases h with
  | plain hn => exact hn.placeholder_notMem
  | marked hn =>
    intro hm
    rcases List.mem_append.1 hm with hm | hm
    · exact hn.placeholder_notMem hm
    · exact absurd hm (by decide)

/-- A given version is marked once, whether it was before or not. -/
theorem IsGiven.marked_eq {v : Text} (h : IsGiven v) : Template.marked v = dropMarks v ++ mark := by
  unfold Template.marked
  cases h with
  | plain hn =>
    rw [contains_mark_of_hyphen_notMem hn.hyphen_notMem, if_neg Bool.false_ne_true,
      dropMarks_of_hyphen_notMem hn.hyphen_notMem]
  | @marked number hn =>
    have hcontains := contains_mark number []
    have hdrop := dropMarks_marked (b := []) hn.hyphen_notMem List.not_mem_nil
    rw [List.append_nil] at hcontains hdrop
    rw [if_pos hcontains, hdrop, List.append_nil]

theorem IsNumber.append_zero {number : Text} (h : IsNumber number) :
    IsNumber (number ++ ['.', '0']) :=
  h.append (List.all_eq_true.1 (by decide))

/-- A stamp is put right after the mark. -/
theorem stampMark_mark {number : Text} (h : IsNumber number) (stamp : Text) :
    stampMark stamp (number ++ mark) = number ++ mark ++ stamp := by
  have hstamp := stampMark_marked stamp h.hyphen_notMem []
  rwa [List.append_nil, List.append_nil] at hstamp

theorem components_mark (number : Text) : (number ++ mark).components = number.components := by
  have hmark : List.count '.' mark = 0 := by decide
  rw [Text.components_eq, Text.components_eq, List.count_append, hmark, Nat.add_zero]

end Template

/-- A given version has its components before the hyphen. -/
theorem components_coreVersion {v : Text} (h : IsGiven v) :
    (coreVersion v).components = v.components := by
  cases h with
  | plain hn => rw [coreVersion_of_hyphen_notMem hn.hyphen_notMem]
  | marked hn => rw [coreVersion_mark hn.hyphen_notMem, components_mark]

/-- So has the number that is left of it without its mark. -/
theorem components_coreVersion_dropMarks {v : Text} (h : IsGiven v) :
    (coreVersion (dropMarks v)).components = v.components := by
  rw [coreVersion_of_hyphen_notMem h.number.hyphen_notMem, components_dropMarks]

/-- A stamp comes after the hyphen. -/
theorem components_stampMark {v : Text} (h : IsGiven v) (stamp : Text) :
    (coreVersion (stampMark stamp v)).components = v.components := by
  cases h with
  | plain hn =>
    rw [stampMark_of_hyphen_notMem stamp hn.hyphen_notMem,
      coreVersion_of_hyphen_notMem hn.hyphen_notMem]
  | marked hn => rw [stampMark_mark hn, coreVersion_marked hn, components_mark]

/-! ### The values that stamping puts on a line -/

/-- The values that a version line can be given, when nothing is to be filled in. -/
inductive Revalued (o : StampOptions) (semantic : Bool) (value : Text) : Text → Prop
  | kept : Revalued o semantic value value
  | released : Revalued o semantic value (releaseValue o.releaseVersion value)
  | stamped : Revalued o semantic value (stampMark o.now.stamp value)
  | newSemantic {v : Text} : o.newDevelopment = some v → semantic = true →
      Revalued o semantic value (marked v)
  | newNumeric {v : Text} : o.newDevelopment = some v → semantic = false →
      Revalued o semantic value (dropMarks v ++ ['.', '0'])

namespace Quoted.IsNumbered

variable {semantic : Bool} {q : Quoted}

theorem zero_value (h : q.IsNumbered semantic) : zero q.value = q.value :=
  Text.replace_of_notMem h.given.placeholder_notMem

/-- A marked value is that of a semantic version. -/
theorem semantic_of_contains_mark (h : q.IsNumbered semantic)
    (hm : Text.contains mark q.value = true) : semantic = true := by
  cases semantic with
  | true => rfl
  | false =>
    rw [contains_mark_of_hyphen_notMem (h.number rfl).hyphen_notMem] at hm
    exact absurd hm Bool.false_ne_true

theorem components_releaseValue (h : q.IsNumbered semantic) {o : StampOptions}
    (ho : o.GivesThree) :
    (coreVersion (releaseValue o.releaseVersion q.value)).components = if semantic then 3 else 4 := by
  rcases releaseValue_cases o.releaseVersion q.value with
    ⟨-, he⟩ | ⟨hmark, ⟨v, hv, he⟩ | ⟨-, he⟩⟩
  · rw [he, h.zero_value, components_coreVersion h.given, h.components_eq]
  · rw [h.zero_value] at hmark
    rw [he, components_coreVersion_dropMarks (ho.releaseVersion v hv), ho.releaseThree v hv,
      h.semantic_of_contains_mark hmark, if_pos rfl]
  · rw [he, h.zero_value, components_coreVersion_dropMarks h.given, h.components_eq]

end Quoted.IsNumbered

/-- **The value that a numbered line is given** has the components the line should have before its
hyphen, by whichever rule. -/
theorem Revalued.components_coreVersion {o : StampOptions} {semantic : Bool} {q : Quoted} {v : Text}
    (h : Revalued o semantic q.value v) (hq : q.IsNumbered semantic) (ho : o.GivesThree) :
    (coreVersion v).components = if semantic then 3 else 4 := by
  cases h with
  | kept => rw [Nameplate.components_coreVersion hq.given, hq.components_eq]
  | released => exact hq.components_releaseValue ho
  | stamped => rw [components_stampMark hq.given, hq.components_eq]
  | newSemantic hnew hs =>
    have hgiven := ho.newDevelopment _ hnew
    rw [hgiven.marked_eq, coreVersion_mark hgiven.number.hyphen_notMem, components_dropMarks,
      ho.newThree _ hnew, if_pos hs]
  | newNumeric hnew hs =>
    have hgiven := ho.newDevelopment _ hnew
    rw [coreVersion_of_hyphen_notMem hgiven.number.append_zero.hyphen_notMem, components_newNumber,
      ho.newThree _ hnew, hs, if_neg Bool.false_ne_true]

/-! ### The gates and these values -/

namespace Template

/-- A stamp of any year: digits, and a sign before a year that has not four of them. -/
structure IsStamp (t : Text) : Prop where
  chars : ∀ c ∈ t, c.isDigit = true ∨ c = '-' ∨ c = '+'
  count_hyphen_le : t.count '-' ≤ 1

theorem IsStamp.notMem {t : Text} (h : IsStamp t) {c : Char} (hdigit : c.isDigit = false)
    (hsign : c ≠ '-' ∧ c ≠ '+') : c ∉ t := by
  intro hm
  rcases h.chars c hm with hd | rfl | rfl
  · rw [hdigit] at hd
    exact Bool.false_ne_true hd
  · exact hsign.1 rfl
  · exact hsign.2 rfl

theorem AllDigits.isStamp {t : Text} (h : AllDigits t) : IsStamp t := by
  refine ⟨fun c hc => Or.inl (h c hc), ?_⟩
  rw [List.count_eq_zero_of_not_mem (h.notMem (by decide))]
  exact Nat.zero_le 1

/-- A number, or a number with a mark and a stamp. -/
inductive IsStamped : Text → Prop
  | plain {number : Text} : IsNumber number → IsStamped number
  | marked {number stamp : Text} : IsNumber number → IsStamp stamp →
      IsStamped (number ++ mark ++ stamp)

theorem IsNumber.isStamped_mark {number : Text} (h : IsNumber number) :
    IsStamped (number ++ mark) := by
  have hstamp : AllDigits ([] : Text) := fun _ hc => absurd hc List.not_mem_nil
  have hmarked := IsStamped.marked h hstamp.isStamp
  rwa [List.append_nil] at hmarked

theorem IsGiven.isStamped {v : Text} (h : IsGiven v) : IsStamped v := by
  cases h with
  | plain hn => exact .plain hn
  | marked hn => exact hn.isStamped_mark

theorem IsGiven.isStamped_stampMark {v stamp : Text} (h : IsGiven v) (hs : IsStamp stamp) :
    IsStamped (stampMark stamp v) := by
  cases h with
  | plain hn =>
    rw [stampMark_of_hyphen_notMem stamp hn.hyphen_notMem]
    exact .plain hn
  | marked hn =>
    rw [stampMark_mark hn]
    exact .marked hn hs

/-- The characters of such a value. -/
def isStampedChar (c : Char) : Bool := isNumberChar c || ['-', 'd', '+'].elem c

theorem IsStamped.chars {v : Text} (h : IsStamped v) : ∀ c ∈ v, isStampedChar c = true := by
  intro c hc
  unfold isStampedChar
  cases h with
  | plain hn => rw [hn.chars c hc, Bool.true_or]
  | marked hn hs =>
    rcases List.mem_append.1 hc with hc | hc
    · rcases List.mem_append.1 hc with hc | hc
      · rw [hn.chars c hc, Bool.true_or]
      · rcases List.mem_pair.1 hc with rfl | rfl <;> decide
    · rcases hs.chars c hc with hd | rfl | rfl
      · rw [isNumberChar_of_isDigit hd, Bool.true_or]
      · decide
      · decide

theorem IsStamped.notMem {v : Text} (h : IsStamped v) {c : Char} (hc : isStampedChar c = false) :
    c ∉ v := fun hm => by simp [h.chars c hm] at hc

/-- Whether a text is apart from these values: it has a character that they lack, or two hyphens
without the letter that parts theirs. -/
def isApart (m : Text) : Bool :=
  m.any (fun c => !isStampedChar c) || (!m.elem 'd' && Nat.blt 1 (m.count '-'))

theorem isApart_iff (m : Text) :
    isApart m = true ↔ (∃ c ∈ m, isStampedChar c = false) ∨ 'd' ∉ m ∧ 1 < m.count '-' := by
  simp [isApart]

/-- **None of these values holds a text that is apart.** -/
theorem IsStamped.contains_eq_false {v m : Text} (hv : IsStamped v) (hm : isApart m = true)
    (hne : m ≠ []) : Text.contains m v = false := by
  rw [Bool.eq_false_iff, ne_eq, Text.contains_iff]
  intro h
  rcases (isApart_iff m).1 hm with ⟨c, hc, hout⟩ | ⟨hletter, hcount⟩
  · exact hv.notMem hout (h.subset hc)
  have hmost (t : Text) (ht : t.count '-' ≤ 1) : ¬ m <:+: t := fun hi =>
    absurd (hi.sublist.count_le '-') (by omega)
  cases hv with
  | plain hn =>
    refine hmost _ ?_ h
    rw [List.count_eq_zero_of_not_mem hn.hyphen_notMem]
    exact Nat.zero_le 1
  | @marked number stamp hn hs =>
    -- the letter of the mark parts the hyphens
    have hparted : number ++ mark ++ stamp = (number ++ ['-']) ++ 'd' :: stamp := by simp [mark]
    rw [hparted, Text.infix_append_cons_iff hletter hne] at h
    rcases h with h | h
    · refine hmost _ ?_ h
      rw [List.count_append, List.count_eq_zero_of_not_mem hn.hyphen_notMem]
      decide
    · exact hmost _ hs.count_hyphen_le h

end Template

theorem Moment.isStamp_stamp (m : Moment) : IsStamp m.stamp := by
  have hrest : AllDigits (pad 2 m.month ++ pad 2 m.day ++ pad 2 m.hour ++ pad 2 m.minute) :=
    (((allDigits_pad _ _).append (allDigits_pad _ _)).append (allDigits_pad _ _)).append
      (allDigits_pad _ _)
  have hsigned (sign : Char) (hsign : sign = '-' ∨ sign = '+') (year : Text)
      (hyear : AllDigits year) : IsStamp (sign :: year) := by
    refine ⟨List.forall_mem_cons.2 ⟨Or.inr hsign, hyear.isStamp.chars⟩, ?_⟩
    rw [List.count_cons, List.count_eq_zero_of_not_mem (hyear.notMem (by decide))]
    split <;> decide
  have hyear : IsStamp (yearText m.year) := by
    unfold yearText
    split
    · exact (allDigits_pad _ _).isStamp
    · exact hsigned _ (by split <;> simp) _ (allDigits_pad _ _)
  have hstamp : m.stamp = yearText m.year ++
      (pad 2 m.month ++ pad 2 m.day ++ pad 2 m.hour ++ pad 2 m.minute) := by
    simp [stamp]
  rw [hstamp]
  refine ⟨fun c hc => (List.mem_append.1 hc).elim (hyear.chars c) (hrest.isStamp.chars c), ?_⟩
  rw [List.count_append, List.count_eq_zero_of_not_mem (hrest.notMem (by decide)), Nat.add_zero]
  exact hyear.count_hyphen_le

theorem Quoted.IsNumbered.isStamped_releaseValue {semantic : Bool} {q : Quoted}
    (h : q.IsNumbered semantic) {o : StampOptions} (ho : o.GivesVersions) :
    IsStamped (releaseValue o.releaseVersion q.value) := by
  rcases releaseValue_cases o.releaseVersion q.value with
    ⟨-, he⟩ | ⟨-, ⟨v, hv, he⟩ | ⟨-, he⟩⟩
  · rw [he, h.zero_value]
    exact h.given.isStamped
  · rw [he]
    exact .plain (ho.releaseVersion v hv).number
  · rw [he, h.zero_value]
    exact .plain h.given.number

/-- The values that stamping puts on a numbered line hold no gate. -/
theorem Revalued.isStamped {o : StampOptions} {semantic : Bool} {q : Quoted} {v : Text}
    (h : Revalued o semantic q.value v) (hq : q.IsNumbered semantic) (ho : o.GivesVersions) :
    IsStamped v := by
  cases h with
  | kept => exact hq.given.isStamped
  | released => exact hq.isStamped_releaseValue ho
  | stamped => exact hq.given.isStamped_stampMark o.now.isStamp_stamp
  | newSemantic hnew =>
    have hgiven := ho.newDevelopment _ hnew
    rw [hgiven.marked_eq]
    exact hgiven.number.isStamped_mark
  | newNumeric hnew => exact .plain (ho.newDevelopment _ hnew).number.append_zero

/-! ### Lines -/

/-- A profile whose declarations take one line, with gates apart from the values. -/
structure Profile.KeepsApart (p : Profile) : Prop where
  steady : p.IsSteady
  commentsLead : p.commentsLead = false
  joinsNextLine : p.joinsNextLine = false
  apart : p.gates.all isApart = true

namespace Profile.KeepsApart

variable {p : Profile} {q : Quoted} {v : Text}

end Profile.KeepsApart

namespace Stamping

variable {p : Profile} {o : StampOptions}

end Stamping

/-! ### Files on which a development can be started -/

namespace Profile

variable {p : Profile}

/-- The version lines of a numbered file, where each takes one line. -/
theorem IsNumbered.lines (hp : p.KeepsApart) {content : Text} (h : p.IsNumbered content) :
    ∀ l ∈ Line.split content, p.declaresVersion l.text = true → ∃ q : Quoted,
      q.IsNumbered (Text.contains p.markers.semanticVersion l.text) ∧ l.text = q.line := by
  intro l hl hd
  have hmem : Group.ofLine p.declaresVersion l ∈ p.groups content := by
    rw [groups_eq_map hp.joinsNextLine]
    exact List.mem_map_of_mem hl
  have hline := h _ hmem ((Group.declares_ofLine _ _).trans hd)
  rwa [Group.text_ofLine] at hline

end Profile

end Nameplate
