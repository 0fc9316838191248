/-
# What the gates see of a version line

The gates of a language look for its markers on a line: comment markers,
required markers and the markers of the versions. None of them can be found in
a version value, and none lies across the quotes around it (`IsForeign`), so
the gates see a version line without its value. Whatever value is put there,
the line is the same version line to them (`declaresVersion_line`), and
numbers never become a comment.

A comment marker that counts at the beginning of a line only is settled before
the first quote, so there the text after the quote may even gain markers
(`declaresVersion_quote`).

Key definitions: `Template.IsForeign`, `Profile.IsSteady`.
Key theorems: `Language.isSteady`, `Profile.IsSteady.declaresVersion_quote`.
-/
import Nameplate.Language
import Nameplate.Proofs.Version.Value

namespace Nameplate

namespace Template

/-- A marker that no value holds and no quote is part of: one of its characters is none of a
value's, or it has more hyphens than a value. -/
structure IsForeign (m : Text) : Prop where
  ne_nil : m ≠ []
  quote_notMem : '"' ∉ m
  notValue : (∃ c ∈ m, isBaseChar c = false ∧ c ∉ mark) ∨ 1 < m.count '-'

/-- Whether a marker is foreign to values. -/
def isForeign (m : Text) : Bool :=
  !m.isEmpty && !m.elem '"' &&
    (m.any (fun c => !isBaseChar c && !mark.elem c) || Nat.blt 1 (m.count '-'))

theorem IsForeign.of_check {m : Text} (h : isForeign m = true) : IsForeign m := by
  rw [isForeign, Bool.and_eq_true, Bool.and_eq_true, Bool.or_eq_true] at h
  obtain ⟨⟨hne, hquote⟩, hvalue⟩ := h
  refine ⟨by simpa using hne, by simpa using hquote, hvalue.imp (fun hany => ?_) (fun hcount => ?_)⟩
  · obtain ⟨c, hc, hout⟩ := List.any_eq_true.1 hany
    exact ⟨c, hc, by simpa using hout⟩
  · simpa using hcount

/-- A value has no foreign marker, and no part of a value has one. -/
theorem IsForeign.contains_eq_false {m u v : Text} (hm : IsForeign m) (hv : IsTemplate v)
    (hu : u <:+: v) : Text.contains m u = false := by
  rw [Bool.eq_false_iff, ne_eq, Text.contains_iff]
  intro h
  have hmv : m <:+: v := h.trans hu
  rcases hm.notValue with ⟨c, hc, hbase, hmark⟩ | hcount
  · rcases hv.mem (hmv.subset hc) with hb | hd
    · exact absurd hb (by simp [hbase])
    · exact hmark hd
  · have hle := hmv.sublist.count_le '-'
    have hone := hv.count_hyphen_le
    omega

/-- The markers that a text with a quote contains are those before the quote and after it. -/
theorem IsForeign.contains_quote {m : Text} (hm : IsForeign m) (a b : Text) :
    Text.contains m (a ++ '"' :: b) = (Text.contains m a || Text.contains m b) :=
  Text.contains_append_cons hm.quote_notMem hm.ne_nil a b

/-- Of a version line, only the text around the value is seen. -/
theorem IsForeign.contains_line {m : Text} (hm : IsForeign m) {q : Quoted} (hq : q.IsVersion) :
    Text.contains m q.line = (Text.contains m q.before || Text.contains m q.after) := by
  rw [Quoted.contains_line hm.ne_nil hm.quote_notMem,
    hm.contains_eq_false hq.value List.infix_rfl, Bool.false_or]

/-- A foreign marker is on a version line whatever its value is. -/
theorem IsForeign.contains_line_congr {m : Text} (hm : IsForeign m) {q : Quoted} (hq : q.IsVersion)
    {v : Text} (hv : IsTemplate v) :
    Text.contains m (Quoted.line { q with value := v }) = Text.contains m q.line := by
  rw [hm.contains_line hq, hm.contains_line (q := { q with value := v }) ⟨hq.before, hq.after, hv⟩]

end Template

open Template

namespace Profile

/-- The markers that decide whether a line declares a version. -/
def gates (p : Profile) : List Text := p.comments ++ p.required ++ p.markers.versions

/-- A profile whose gates see the same whatever a version value is. Where the second line of a
declaration may move, only the beginning of a line makes it a comment. -/
structure IsSteady (p : Profile) : Prop where
  foreign : ∀ m ∈ p.gates, IsForeign m
  lead : p.joinsNextLine = true → p.commentsLead = true

variable {p : Profile}

theorem IsSteady.comment (hp : p.IsSteady) {m : Text} (h : m ∈ p.comments) : IsForeign m :=
  hp.foreign m (by simp [gates, h])

theorem IsSteady.required (hp : p.IsSteady) {m : Text} (h : m ∈ p.required) : IsForeign m :=
  hp.foreign m (by simp [gates, h])

theorem IsSteady.version (hp : p.IsSteady) {m : Text} (h : m ∈ p.markers.versions) : IsForeign m :=
  hp.foreign m (by simp [gates, h])

/-- Text that stays free of comment markers, or follows where none counts any more, makes no
comment. -/
theorem IsSteady.isUncommented_quote (hp : p.IsSteady) {a b b' : Text}
    (h : p.commentsLead = true ∨ ∀ m, IsForeign m → Text.contains m b' = true →
      Text.contains m b = true)
    (hu : p.isUncommented (a ++ '"' :: b) = true) : p.isUncommented (a ++ '"' :: b') = true := by
  unfold isUncommented at hu ⊢
  by_cases hlead : p.commentsLead = true
  · rw [if_pos hlead, Bool.not_eq_true', List.any_eq_false] at hu ⊢
    intro m hm
    have hq : '"' ∉ m := (hp.comment hm).quote_notMem
    have := hu m hm
    rwa [Text.isPrefixOf_trimStart_append_quote hq] at this ⊢
  · rw [if_neg hlead, Bool.not_eq_true', Text.containsAny, List.any_eq_false] at hu ⊢
    intro m hm hc
    apply hu m hm
    have hf := hp.comment hm
    rw [hf.contains_quote, Bool.or_eq_true] at hc ⊢
    exact hc.imp_right (h.resolve_left hlead m hf)

theorem containsAny_quote {ms : List Text} (hms : ∀ m ∈ ms, IsForeign m) {a b b' : Text}
    (h : ∀ m, IsForeign m → Text.contains m b = true → Text.contains m b' = true)
    (hc : Text.containsAny ms (a ++ '"' :: b) = true) :
    Text.containsAny ms (a ++ '"' :: b') = true := by
  obtain ⟨m, hm, hcm⟩ := List.any_eq_true.1 hc
  refine List.any_eq_true.2 ⟨m, hm, ?_⟩
  rw [(hms m hm).contains_quote, Bool.or_eq_true] at hcm ⊢
  exact hcm.imp_right (h m (hms m hm))

/-- **A declaration stays one** when what follows its first quote loses no marker, and gains none
either where a comment marker counts anywhere. -/
theorem IsSteady.declaresVersion_quote (hp : p.IsSteady) {a b b' : Text}
    (hkeep : ∀ m, IsForeign m → Text.contains m b = true → Text.contains m b' = true)
    (hgain : p.commentsLead = true ∨ ∀ m, IsForeign m → Text.contains m b' = true →
      Text.contains m b = true)
    (h : p.declaresVersion (a ++ '"' :: b) = true) : p.declaresVersion (a ++ '"' :: b') = true := by
  simp only [declaresVersion, mayDeclare, Bool.and_eq_true, Bool.or_eq_true] at h ⊢
  obtain ⟨⟨hu, hr⟩, hv⟩ := h
  refine ⟨⟨hp.isUncommented_quote hgain hu, ?_⟩, ?_⟩
  · exact hr.imp_right (containsAny_quote (fun m hm => hp.required hm) hkeep)
  · exact containsAny_quote (fun m hm => hp.version hm) hkeep hv

/-- A version line declares a version whatever its value is. -/
theorem IsSteady.declaresVersion_line (hp : p.IsSteady) {q : Quoted} (hq : q.IsVersion) {v : Text}
    (hv : IsTemplate v) (h : p.declaresVersion q.line = true) :
    p.declaresVersion (Quoted.line { q with value := v }) = true := by
  have hsame (m : Text) (hm : IsForeign m) :
      Text.contains m (q.value ++ '"' :: q.after) = Text.contains m (v ++ '"' :: q.after) := by
    rw [hm.contains_quote, hm.contains_quote, hm.contains_eq_false hq.value List.infix_rfl,
      hm.contains_eq_false hv List.infix_rfl]
  exact hp.declaresVersion_quote (fun m hm hc => hsame m hm ▸ hc)
    (Or.inr fun m hm hc => hsame m hm ▸ hc) h

theorem IsSteady.semantic_line (hp : p.IsSteady) {q : Quoted} (hq : q.IsVersion) {v : Text}
    (hv : IsTemplate v) :
    Text.contains p.markers.semanticVersion (Quoted.line { q with value := v }) =
      Text.contains p.markers.semanticVersion q.line :=
  (hp.version (by simp [Markers.versions])).contains_line_congr hq hv

theorem IsSteady.isFileVersion_line (hp : p.IsSteady) {q : Quoted} (hq : q.IsVersion) {v : Text}
    (hv : IsTemplate v) :
    p.markers.isFileVersion (Quoted.line { q with value := v }) =
      p.markers.isFileVersion q.line := by
  unfold Markers.isFileVersion
  cases h : p.markers.fileVersion with
  | none => rfl
  | some f => exact (hp.version (by simp [Markers.versions, h])).contains_line_congr hq hv

end Profile

/-- **The gates of every language see past the value.** -/
theorem Language.isSteady (l : Language) : l.profile.IsSteady := by
  have hgates : l.profile.gates.all isForeign = true := by cases l <;> decide +kernel
  refine ⟨fun m hm => .of_check (List.all_eq_true.1 hgates m hm), ?_⟩
  cases l <;> decide

end Nameplate
