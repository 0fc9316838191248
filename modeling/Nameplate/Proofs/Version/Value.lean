/-
# Version values

The value of a version line is a base of digits, dots and placeholders, with
or without the mark of a version under development and the digits of a stamp
after it (`IsTemplate`). A version that is given on the way has no placeholder
and no stamp (`IsGiven`).

Every rule takes such values to such values, given options to match
(`StampOptions.IsPlain`): a base stays a base whatever fills its placeholders,
and the mark stands in one place only, directly after the base.

Key definitions: `Template.IsTemplate`, `Template.IsGiven`,
`StampOptions.IsPlain`.
Key theorems: `Stamping.Rule.isTemplate_value?`, `Stamping.apply_ruleFor_line`.
-/
import Nameplate.Proofs.Text.Blank
import Nameplate.Proofs.Text.Contains
import Nameplate.Proofs.Version.Rule

namespace Nameplate

/-! ### Replacing characters -/

namespace Text

theorem replace_append (c : Char) (new s t : Text) :
    replace c new (s ++ t) = replace c new s ++ replace c new t := by
  simp [replace]

theorem replace_of_notMem {c : Char} {new : Text} : ∀ {t : Text}, c ∉ t → replace c new t = t
  | [], _ => rfl
  | x :: t, h => by
    simp only [List.mem_cons, not_or] at h
    have ih : replace c new t = t := replace_of_notMem h.2
    unfold replace at ih ⊢
    rw [List.flatMap_cons, if_neg (Ne.symm h.1), ih]
    rfl

theorem mem_replace {c x : Char} {new t : Text} (h : x ∈ replace c new t) :
    x ∈ new ∨ x ∈ t ∧ x ≠ c := by
  obtain ⟨y, hy, hx⟩ := List.mem_flatMap.1 h
  by_cases hc : y = c
  · rw [if_pos hc] at hx
    exact Or.inl hx
  · rw [if_neg hc, List.mem_singleton] at hx
    exact Or.inr ⟨hx ▸ hy, hx ▸ hc⟩

theorem replace_ne_nil {c : Char} {new t : Text} (hn : new ≠ []) (ht : t ≠ []) :
    replace c new t ≠ [] := by
  cases t with
  | nil => exact absurd rfl ht
  | cons x t =>
    unfold replace
    rw [List.flatMap_cons]
    split <;> simp [hn]

/-- Each place that is taken brings the characters of the new text. -/
theorem count_replace {c x : Char} (hx : x ≠ c) (new t : Text) :
    (replace c new t).count x = t.count x + t.count c * new.count x := by
  induction t with
  | nil => simp [replace]
  | cons y t ih =>
    unfold replace at ih ⊢
    rw [List.flatMap_cons, List.count_append, ih, List.count_cons, List.count_cons]
    by_cases hy : y = c
    · have hne : (c == x) = false := by simpa using Ne.symm hx
      rw [if_pos hy, hy, hne, beq_self_eq_true, if_neg Bool.false_ne_true, if_pos rfl, Nat.add_mul]
      omega
    · have hne : (y == c) = false := by simpa using hy
      rw [if_neg hy, hne, if_neg Bool.false_ne_true, Nat.add_zero, List.count_singleton]
      omega

theorem count_replace_of_notMem {c x : Char} {new : Text} (hnew : x ∉ new) (hx : x ≠ c) (t : Text) :
    (replace c new t).count x = t.count x := by
  rw [count_replace hx, List.count_eq_zero_of_not_mem hnew, Nat.mul_zero, Nat.add_zero]

end Text

namespace Template

/-! ### The form of a value -/

/-- The characters of a number: digits and dots. -/
def isNumberChar (c : Char) : Bool := c.isDigit || c == '.'

/-- The characters of a base: those of a number, and the placeholder. -/
def isBaseChar (c : Char) : Bool := isNumberChar c || c == placeholder

/-- Digits only. -/
def AllDigits (t : Text) : Prop := ∀ c ∈ t, c.isDigit = true

/-- A number of any number of components, some of them perhaps empty. -/
structure IsNumber (t : Text) : Prop where
  ne_nil : t ≠ []
  chars : ∀ c ∈ t, isNumberChar c = true

/-- A number, or a number in the making. -/
structure IsBase (t : Text) : Prop where
  ne_nil : t ≠ []
  chars : ∀ c ∈ t, isBaseChar c = true

/-- The value of a version line. -/
inductive IsTemplate : Text → Prop
  | plain {base : Text} : IsBase base → IsTemplate base
  | marked {base stamp : Text} : IsBase base → AllDigits stamp → IsTemplate (base ++ mark ++ stamp)

/-- A version that is given. -/
inductive IsGiven : Text → Prop
  | plain {number : Text} : IsNumber number → IsGiven number
  | marked {number : Text} : IsNumber number → IsGiven (number ++ mark)

/-- A base with a mark and no stamp. -/
theorem IsBase.isTemplate_mark {base : Text} (hb : IsBase base) : IsTemplate (base ++ mark) := by
  have h := @IsTemplate.marked base [] hb fun _ hc => absurd hc List.not_mem_nil
  rwa [List.append_nil] at h

theorem isNumberChar_of_isDigit {c : Char} (h : c.isDigit = true) : isNumberChar c = true := by
  simp [isNumberChar, h]

theorem isBaseChar_of_isNumberChar {c : Char} (h : isNumberChar c = true) :
    isBaseChar c = true := by
  simp [isBaseChar, h]

theorem IsNumber.isBase {t : Text} (h : IsNumber t) : IsBase t :=
  ⟨h.ne_nil, fun c hc => isBaseChar_of_isNumberChar (h.chars c hc)⟩

theorem IsNumber.append_digits {t ds : Text} (h : IsNumber t) (hd : AllDigits ds) :
    IsNumber (t ++ ds) := by
  refine ⟨by simp [h.ne_nil], fun c hc => ?_⟩
  rcases List.mem_append.1 hc with hc | hc
  · exact h.chars c hc
  · exact isNumberChar_of_isDigit (hd c hc)

theorem IsBase.notMem {t : Text} (h : IsBase t) {c : Char} (hc : isBaseChar c = false) : c ∉ t :=
  fun hm => by simp [h.chars c hm] at hc

theorem IsBase.hyphen_notMem {t : Text} (h : IsBase t) : '-' ∉ t := h.notMem (by decide)

theorem IsNumber.hyphen_notMem {t : Text} (h : IsNumber t) : '-' ∉ t := h.isBase.hyphen_notMem

theorem IsNumber.placeholder_notMem {t : Text} (h : IsNumber t) : placeholder ∉ t := fun hm =>
  absurd (h.chars _ hm) (by decide)

theorem AllDigits.notMem {t : Text} (h : AllDigits t) {c : Char} (hc : c.isDigit = false) : c ∉ t :=
  fun hm => by simp [h c hm] at hc

theorem AllDigits.append {s t : Text} (hs : AllDigits s) (ht : AllDigits t) : AllDigits (s ++ t) :=
  fun c hc => (List.mem_append.1 hc).elim (hs c) (ht c)

/-- The characters of a value: those of a base, and those of the mark. -/
theorem IsTemplate.mem {v : Text} (h : IsTemplate v) {c : Char} (hc : c ∈ v) :
    isBaseChar c = true ∨ c ∈ mark := by
  cases h with
  | plain hb => exact Or.inl (hb.chars c hc)
  | marked hb hs =>
    rcases List.mem_append.1 hc with hc | hc
    · exact (List.mem_append.1 hc).imp_left (hb.chars c)
    · exact Or.inl (isBaseChar_of_isNumberChar (isNumberChar_of_isDigit (hs c hc)))

theorem IsTemplate.lineFeed_notMem {v : Text} (h : IsTemplate v) : '\n' ∉ v := fun hm =>
  absurd (h.mem hm) (by decide)

theorem IsTemplate.return_notMem {v : Text} (h : IsTemplate v) : '\r' ∉ v := fun hm =>
  absurd (h.mem hm) (by decide)

/-- A value has at most one hyphen, that of its mark. -/
theorem IsTemplate.count_hyphen_le {v : Text} (h : IsTemplate v) : v.count '-' ≤ 1 := by
  cases h with
  | plain hb => rw [List.count_eq_zero_of_not_mem hb.hyphen_notMem]; exact Nat.zero_le 1
  | marked hb hs =>
    have hstamp := hs.notMem (c := '-') (by decide)
    rw [List.count_append, List.count_append, List.count_eq_zero_of_not_mem hb.hyphen_notMem,
      List.count_eq_zero_of_not_mem hstamp]
    decide

/-! ### Marks -/

theorem contains_mark_of_hyphen_notMem {t : Text} (h : '-' ∉ t) : Text.contains mark t = false :=
  Text.contains_eq_false_of_mem List.mem_cons_self h

theorem contains_mark (a b : Text) : Text.contains mark (a ++ mark ++ b) = true :=
  (Text.contains_iff mark _).2 ⟨a, b, rfl⟩

theorem dropMarks_append {a : Text} (h : '-' ∉ a) (t : Text) :
    dropMarks (a ++ t) = a ++ dropMarks t := by
  induction a with
  | nil => rfl
  | cons c a ih =>
    simp only [List.mem_cons, not_or] at h
    rw [List.cons_append, dropMarks, ih h.2]
    · rfl
    · exact fun _ hc => absurd hc.symm h.1

theorem dropMarks_of_hyphen_notMem {t : Text} (h : '-' ∉ t) : dropMarks t = t := by
  simpa [dropMarks] using dropMarks_append h []

theorem dropMarks_marked {a b : Text} (ha : '-' ∉ a) (hb : '-' ∉ b) :
    dropMarks (a ++ mark ++ b) = a ++ b := by
  rw [List.append_assoc, dropMarks_append ha]
  show a ++ dropMarks b = a ++ b
  rw [dropMarks_of_hyphen_notMem hb]

theorem stampMark_append (stamp : Text) {a : Text} (h : '-' ∉ a) (t : Text) :
    stampMark stamp (a ++ t) = a ++ stampMark stamp t := by
  induction a with
  | nil => rfl
  | cons c a ih =>
    simp only [List.mem_cons, not_or] at h
    rw [List.cons_append, stampMark, ih h.2]
    · rfl
    · exact fun _ hc => absurd hc.symm h.1

theorem stampMark_of_hyphen_notMem (stamp : Text) {t : Text} (h : '-' ∉ t) :
    stampMark stamp t = t := by
  simpa [stampMark] using stampMark_append stamp h []

theorem stampMark_marked (stamp : Text) {a : Text} (ha : '-' ∉ a) (b : Text) :
    stampMark stamp (a ++ mark ++ b) = a ++ mark ++ (stamp ++ b) := by
  rw [List.append_assoc, stampMark_append stamp ha, List.append_assoc]
  rfl

/-! ### Placeholders -/

/-- A base becomes a number when its placeholders are filled with one. -/
theorem IsBase.replace {base new : Text} (hb : IsBase base) (hn : IsNumber new) :
    IsNumber (Text.replace placeholder new base) := by
  refine ⟨Text.replace_ne_nil hn.ne_nil hb.ne_nil, fun c hc => ?_⟩
  rcases Text.mem_replace hc with hc | ⟨hc, hne⟩
  · exact hn.chars c hc
  · have hbase := hb.chars c hc
    simpa [isBaseChar, hne] using hbase

/-- Nothing after the base is a placeholder. -/
theorem replace_marked (new base : Text) {stamp : Text} (hs : AllDigits stamp) :
    Text.replace placeholder new (base ++ mark ++ stamp) =
      Text.replace placeholder new base ++ mark ++ stamp := by
  have hmark : placeholder ∉ mark := by decide
  have hstamp : placeholder ∉ stamp := hs.notMem (by decide)
  rw [Text.replace_append, Text.replace_append, Text.replace_of_notMem hmark,
    Text.replace_of_notMem hstamp]

theorem isNumber_zero : IsNumber ['0'] := ⟨by decide, List.all_eq_true.1 (by decide)⟩

theorem IsNumber.append {s t : Text} (hs : IsNumber s) (ht : ∀ c ∈ t, isNumberChar c = true) :
    IsNumber (s ++ t) :=
  ⟨by simp [hs.ne_nil], fun c hc => (List.mem_append.1 hc).elim (hs.chars c) (ht c)⟩

/-- The number of components that a template with `dots` dots lacks. -/
def lacking (dots : Nat) : Nat := if dots ≤ 3 then 3 - dots else 3

/-- Components of 0, each behind a dot. -/
def zeros (n : Nat) : Text := (List.replicate n ['.', '0']).flatten

theorem isNumberChar_of_mem_zeros {n : Nat} {c : Char} (h : c ∈ zeros n) :
    isNumberChar c = true := by
  obtain ⟨component, hcomponent, hc⟩ := List.mem_flatten.1 h
  rw [(List.mem_replicate.1 hcomponent).2] at hc
  exact List.all_eq_true.1 (by decide : ['.', '0'].all isNumberChar = true) c hc

/-- **What is put in is the part with the components that are lacking.** -/
theorem filling_eq (part : Text) (dots : Nat) :
    filling part dots = part ++ zeros (lacking dots) := by
  match dots with
  | 0 | 1 | 2 => rfl
  | 3 => exact (List.append_nil part).symm
  | more + 4 =>
    rw [filling, lacking, if_neg (by omega)]
    · rfl
    all_goals omega

theorem isNumber_filling {part : Text} (h : IsNumber part) (dots : Nat) :
    IsNumber (filling part dots) := by
  rw [filling_eq]
  exact h.append fun _ hc => isNumberChar_of_mem_zeros hc

/-- What is not of a number comes from the version part. -/
theorem mem_of_mem_filling {c : Char} (hc : isNumberChar c = false) {part : Text} {dots : Nat}
    (h : c ∈ filling part dots) : c ∈ part := by
  rw [filling_eq, List.mem_append] at h
  refine h.resolve_right fun hm => ?_
  rw [isNumberChar_of_mem_zeros hm] at hc
  exact Bool.noConfusion hc

theorem placeholder_notMem_fill {part : Text} (h : placeholder ∉ part) (v : Text) :
    placeholder ∉ fill part v := by
  intro hm
  rcases Text.mem_replace hm with hm | ⟨-, hne⟩
  · exact h (mem_of_mem_filling (by decide) hm)
  · exact hne rfl

theorem placeholder_notMem_zero (v : Text) : placeholder ∉ zero v := by
  intro hm
  rcases Text.mem_replace hm with hm | ⟨-, hne⟩
  · exact absurd hm (by decide)
  · exact hne rfl

/-! ### Versions that are given -/

theorem IsGiven.number {v : Text} (h : IsGiven v) : IsNumber (dropMarks v) := by
  cases h with
  | plain hn => rwa [dropMarks_of_hyphen_notMem hn.hyphen_notMem]
  | @marked number hn =>
    have hd := dropMarks_marked (b := []) hn.hyphen_notMem List.not_mem_nil
    rw [List.append_nil, List.append_nil] at hd
    rwa [hd]

theorem IsGiven.marked_isTemplate {v : Text} (h : IsGiven v) : IsTemplate (Template.marked v) := by
  unfold Template.marked
  cases h with
  | plain hn =>
    rw [contains_mark_of_hyphen_notMem hn.hyphen_notMem, if_neg Bool.false_ne_true]
    exact hn.isBase.isTemplate_mark
  | @marked number hn =>
    have hc := contains_mark number []
    rw [List.append_nil] at hc
    rw [if_pos hc]
    exact hn.isBase.isTemplate_mark

theorem IsGiven.isBlankChar_eq_false {v : Text} (h : IsGiven v) :
    ∀ c ∈ v, isBlankChar c = false := by
  have hnumber {t : Text} (ht : IsNumber t) : ∀ c ∈ t, isBlankChar c = false := by
    intro c hc
    rcases Bool.or_eq_true_iff.1 (ht.chars c hc) with hd | hdot
    · exact Text.isBlankChar_of_isDigit hd
    · rw [beq_iff_eq] at hdot
      subst hdot
      decide
  have hmark : ∀ c ∈ mark, isBlankChar c = false :=
    List.forall_mem_cons.2 ⟨by decide, List.forall_mem_singleton.2 (by decide)⟩
  cases h with
  | plain hn => exact hnumber hn
  | marked hn => exact fun c hc => (List.mem_append.1 hc).elim (hnumber hn c) (hmark c)

theorem IsGiven.nonBlank?_eq {v : Text} (h : IsGiven v) : Text.nonBlank? v = some v := by
  refine Text.nonBlank?_of_notBlank ?_ h.isBlankChar_eq_false
  cases h with
  | plain hn => exact hn.ne_nil
  | marked hn => simp [hn.ne_nil]

/-! ### What the rules make of a value -/

theorem isTemplate_fill {part v : Text} (hp : IsNumber part) (h : IsTemplate v) :
    IsTemplate (fill part v) := by
  have hfill (base : Text) (hb : IsBase base) :
      IsNumber (Text.replace placeholder (filling part (v.count '.')) base) :=
    hb.replace (isNumber_filling hp _)
  unfold fill
  cases h with
  | plain hb => exact .plain (hfill _ hb).isBase
  | @marked base stamp hb hs =>
    rw [replace_marked _ _ hs]
    exact .marked (hfill base hb).isBase hs

theorem isTemplate_development {stamp v : Text} (hstamp : AllDigits stamp) (h : IsTemplate v) :
    IsTemplate (stampMark stamp (zero v)) := by
  unfold zero
  cases h with
  | plain hb =>
    have hn := hb.replace isNumber_zero
    rw [stampMark_of_hyphen_notMem stamp hn.hyphen_notMem]
    exact .plain hn.isBase
  | @marked base old hb hs =>
    have hn := hb.replace isNumber_zero
    rw [replace_marked _ _ hs, stampMark_marked stamp hn.hyphen_notMem]
    exact .marked hn.isBase (hstamp.append hs)

/-- A released version has no mark. -/
theorem isNumber_releaseValue {version : Option Text} (hg : ∀ v ∈ version, IsGiven v) {v : Text}
    (h : IsTemplate v) : IsNumber (releaseValue version v) := by
  unfold releaseValue zero
  cases h with
  | plain hb =>
    have hn := hb.replace isNumber_zero
    simp only [contains_mark_of_hyphen_notMem hn.hyphen_notMem]
    exact hn
  | @marked base stamp hb hs =>
    have hn := hb.replace isNumber_zero
    have hhyphen : '-' ∉ stamp := hs.notMem (by decide)
    rw [replace_marked _ _ hs]
    simp only [contains_mark, if_true]
    cases version with
    | none =>
      show IsNumber (dropMarks _)
      rw [dropMarks_marked hn.hyphen_notMem hhyphen]
      exact hn.append_digits hs
    | some given =>
      have hgiven := hg given rfl
      rw [Option.bind_some, hgiven.nonBlank?_eq]
      exact hgiven.number

end Template

/-! ### Stamps -/

theorem Text.allDigits_ofNat (n : Nat) : Template.AllDigits (Text.ofNat n) := fun _ hc =>
  isDigit_of_mem_ofNat hc

theorem Moment.allDigits_pad (width n : Nat) : Template.AllDigits (pad width n) := by
  refine Template.AllDigits.append (fun c hc => ?_) (Text.allDigits_ofNat n)
  rw [(List.mem_replicate.1 hc).2]
  decide

theorem Moment.allDigits_stamp {m : Moment} (h : 0 ≤ m.year ∧ m.year ≤ 9999) :
    Template.AllDigits m.stamp := by
  rw [stamp, yearText, if_pos h]
  exact ((((allDigits_pad _ _).append (allDigits_pad _ _)).append (allDigits_pad _ _)).append
    (allDigits_pad _ _)).append (allDigits_pad _ _)

/-! ### What the rules make of a line -/

/-- Options with which every rule can be followed and gives a value again. -/
structure StampOptions.IsPlain (o : StampOptions) : Prop where
  versionPart : ∃ part, o.versionPart = some part ∧ part ≠ [] ∧ Template.AllDigits part
  releaseVersion : ∀ v ∈ o.releaseVersion, Template.IsGiven v
  newDevelopment : ∀ v ∈ o.newDevelopment, Template.IsGiven v
  year : 0 ≤ o.now.year ∧ o.now.year ≤ 9999

/-- A version line taken apart: no quotes but the two around the value. -/
structure Quoted.IsVersion (q : Quoted) : Prop where
  before : '"' ∉ q.before
  after : '"' ∉ q.after
  value : Template.IsTemplate q.value

theorem Quoted.IsVersion.with_value {q : Quoted} (hq : q.IsVersion) {v : Text}
    (hv : Template.IsTemplate v) : Quoted.IsVersion { q with value := v } :=
  ⟨hq.before, hq.after, hv⟩

theorem Quoted.IsVersion.line_injective {q q' : Quoted} (hq : q.IsVersion) (hq' : q'.IsVersion)
    (h : q.line = q'.line) : q = q' := by
  have hs := Quoted.split?_line hq.before hq.after
  rw [h, Quoted.split?_line hq'.before hq'.after] at hs
  exact (Option.some.inj hs).symm

theorem Quoted.notMem_line {q : Quoted} {c : Char} (h : c ∉ q.line) {v : Text} (hv : c ∉ v) :
    c ∉ Quoted.line { q with value := v } := by
  simp_all [Quoted.line]

theorem Text.mapQuoted_line {q : Quoted} (hb : '"' ∉ q.before) (ha : '"' ∉ q.after)
    (f : Text → Text) : Text.mapQuoted f q.line = Quoted.line { q with value := f q.value } := by
  rw [Text.mapQuoted, Quoted.split?_line hb ha]

namespace Stamping

/-- **Every rule takes version values to version values.** -/
theorem Rule.isTemplate_value? {o : StampOptions} (ho : o.IsPlain) {rule : Rule}
    (hgiven : ∀ v ∈ rule.given?, Template.IsGiven v) {value : Text}
    (h : Template.IsTemplate value) :
    ∃ v, Template.IsTemplate v ∧ rule.value? o value = some v := by
  cases rule with
  | newSemantic given => exact ⟨_, (hgiven given rfl).marked_isTemplate, rfl⟩
  | newNumeric given =>
    have hzero : ∀ c ∈ ['.', '0'], Template.isNumberChar c = true :=
      List.all_eq_true.1 (by decide)
    exact ⟨_, .plain ((hgiven given rfl).number.append hzero).isBase, rfl⟩
  | numeric =>
    obtain ⟨part, hpart, hne, hdigits⟩ := ho.versionPart
    have hnumber : Template.IsNumber part :=
      ⟨hne, fun c hc => Template.isNumberChar_of_isDigit (hdigits c hc)⟩
    rw [value?, hpart, Option.bind_some, (Template.IsGiven.plain hnumber).nonBlank?_eq]
    by_cases hawaits : Template.placeholder ∈ value
    · rw [if_pos hawaits]
      exact ⟨_, Template.isTemplate_fill hnumber h, rfl⟩
    · rw [if_neg hawaits]
      exact ⟨value, h, rfl⟩
  | release => exact ⟨_, .plain (Template.isNumber_releaseValue ho.releaseVersion h).isBase, rfl⟩
  | development =>
    exact ⟨_, Template.isTemplate_development (Moment.allDigits_stamp ho.year) h, rfl⟩

/-- **Every rule makes a version line of a version line**, and changes nothing but the value. -/
theorem apply_ruleFor_line {o : StampOptions} (ho : o.IsPlain) (m : Markers) (semantic : Bool)
    {q : Quoted} (hq : q.IsVersion) :
    ∃ v, Template.IsTemplate v ∧
      (ruleFor m o semantic q.line).apply o q.line = some (Quoted.line { q with value := v }) := by
  have hgiven := (selects_ruleFor m o semantic q.line).given?_eq
  obtain ⟨v, hv, hvalue⟩ := Rule.isTemplate_value? ho (hgiven ▸ ho.newDevelopment) hq.value
  refine ⟨v, hv, ?_⟩
  rw [Rule.apply_eq, Text.quotedOrAll_line hq.before hq.after, hvalue, Option.map_some,
    Text.mapQuoted_line hq.before hq.after]

end Stamping
end Nameplate
