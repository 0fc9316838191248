/-
# Whether a version is reported

A file that is stamped declares a version, and on lines that declare something
the version that is reported is something too, but in two cases
(`stampSource_reported`). The version is read between quotes. On a line without
them the rules go by all of the line, and nothing is read; stamping gives it no
quotes, when what is given to put there has none (`Rule.count_quote_le`). And a
release that has no version of its own drops the marks, after which nothing
need be left (`Rule.isBlank_iff`).

Key definitions: `Text.declared`, `Profile.DeclaresValues`,
`StampOptions.GivesNumbers`, `Stamping.StripsMarks`.
Key theorems: `Stamping.Rule.isBlank_iff`, `Stamping.Rule.count_quote_le`,
`stampSource_reported`.
-/
import Nameplate.Proofs.Version.Filled

namespace Nameplate

open Template

/-! ### Blank values -/

namespace Text

/-- What is put in the place of a character that is not blank does not make a text blank. -/
theorem isBlank_replace {c : Char} {new : Text} (hc : isBlankChar c = false)
    (hnew : isBlank new = false) (t : Text) : isBlank (replace c new t) = isBlank t := by
  induction t with
  | nil => rfl
  | cons x t ih =>
    have hx : isBlank (if x = c then new else [x]) = isBlankChar x := by
      by_cases hx : x = c
      · rw [if_pos hx, hnew, hx, hc]
      · rw [if_neg hx, isBlank, List.all_cons, List.all_nil, Bool.and_true]
    unfold replace at ih ⊢
    rw [List.flatMap_cons, isBlank_append, ih, hx]
    rfl

end Text

namespace Template

open Text

theorem isBlank_zero (v : Text) : isBlank (zero v) = isBlank v :=
  isBlank_replace (by decide) (by decide) v

theorem isBlank_fill {part : Text} (hpart : isBlank part = false) (v : Text) :
    isBlank (fill part v) = isBlank v := by
  refine isBlank_replace (by decide) ?_ v
  rw [filling_eq, isBlank_append, hpart, Bool.false_and]

theorem isBlank_stampMark (stamp v : Text) : isBlank (stampMark stamp v) = isBlank v := by
  induction v using stampMark.induct with
  | case1 rest =>
    have hhyphen : isBlankChar '-' = false := by decide
    rw [stampMark, isBlank_eq_false_of_mem List.mem_cons_self hhyphen,
      isBlank_eq_false_of_mem List.mem_cons_self hhyphen]
  | case2 c rest hmark ih =>
    rw [stampMark, isBlank, List.all_cons, isBlank, List.all_cons]
    · exact congrArg (isBlankChar c && ·) ih
    · exact hmark
  | case3 => rfl

theorem isBlank_marked (v : Text) : isBlank (marked v) = false := by
  have hhyphen : '-' ∈ marked v := by
    unfold marked
    split
    next h => exact ((contains_iff mark v).1 h).subset List.mem_cons_self
    next => exact List.mem_append_right v List.mem_cons_self
  exact isBlank_eq_false_of_mem hhyphen (by decide)

theorem zero_cons (c : Char) (v : Text) :
    zero (c :: v) = (if c = placeholder then '0' else c) :: zero v := by
  rw [zero, zero, replace, replace, List.flatMap_cons]
  split <;> rfl

/-- The marks are the same when the places for numbers are filled with 0. -/
theorem dropMarks_zero (v : Text) : dropMarks (zero v) = zero (dropMarks v) := by
  induction v using dropMarks.induct with
  | case1 rest ih =>
    rw [zero_cons, zero_cons, dropMarks, ← ih]
    rfl
  | case2 c rest hmark ih =>
    rw [dropMarks, zero_cons, zero_cons, dropMarks, ih]
    · intro rest' hc hrest
      have hhyphen : c = '-' := by
        by_cases hp : c = placeholder
        · rw [if_pos hp] at hc
          exact absurd hc (by decide)
        · rwa [if_neg hp] at hc
      cases rest with
      | nil => cases hrest
      | cons d rest =>
        rw [zero_cons] at hrest
        obtain ⟨hd, -⟩ := List.cons.inj hrest
        by_cases hp : d = placeholder
        · rw [if_pos hp] at hd
          exact absurd hd (by decide)
        · rw [if_neg hp] at hd
          exact hmark rest hhyphen (by rw [hd])
    · exact hmark
  | case3 => rfl

theorem dropMarks_of_contains_eq_false {v : Text} (h : contains mark v = false) :
    dropMarks v = v := by
  induction v using dropMarks.induct with
  | case1 rest _ =>
    have hmark : contains mark ('-' :: 'd' :: rest) = true :=
      (contains_iff mark _).2 ⟨[], rest, rfl⟩
    rw [hmark] at h
    cases h
  | case2 c rest hmark ih =>
    rw [contains, Bool.or_eq_false_iff] at h
    rw [dropMarks, ih h.2]
    exact hmark
  | case3 => rfl

end Template

/-! ### The rules -/

/-- What is given is written with digits and dots. -/
structure StampOptions.GivesNumbers (o : StampOptions) : Prop where
  versionPart : ∀ t ∈ o.versionPart, ∀ c ∈ t, isNumberChar c = true
  releaseVersion : ∀ t ∈ o.releaseVersion, ∀ c ∈ t, isNumberChar c = true
  newDevelopment : ∀ t ∈ o.newDevelopment, ∀ c ∈ t, isNumberChar c = true

namespace Stamping

variable {m : Markers} {o : StampOptions}

theorem notMem_of_isNumberChar {c : Char} (hc : isNumberChar c = false) {t : Text}
    (h : ∀ x ∈ t, isNumberChar x = true) : c ∉ t := by
  intro hm
  rw [h c hm] at hc
  cases hc

theorem notMem_nonBlank {c : Char} (hc : isNumberChar c = false) {given : Option Text}
    (h : ∀ t ∈ given, ∀ x ∈ t, isNumberChar x = true) {s : Text}
    (hs : given.bind Text.nonBlank? = some s) : c ∉ s := by
  obtain ⟨t, ht, hts⟩ := Option.bind_eq_some_iff.1 hs
  exact fun hm => notMem_of_isNumberChar hc (h t ht) (Text.nonBlank?_subset hts hm)

namespace Rule

/-- **A rule makes a blank value only by dropping marks**: of a value that has nothing else, and
when no version is given to release. -/
theorem isBlank_iff (ho : o.GivesNumbers) {rule : Rule} {value v : Text}
    (hvalue : Text.isBlank value = false) (h : rule.value? o value = some v) :
    Text.isBlank v = true ↔ rule = .release ∧ o.releaseVersion.bind Text.nonBlank? = none ∧
      Text.isBlank (dropMarks value) = true := by
  have hnot {w : Text} (hv : Text.isBlank w = false) (hrule : rule ≠ .release) (he : v = w) :
      Text.isBlank v = true ↔ rule = .release ∧ o.releaseVersion.bind Text.nonBlank? = none ∧
        Text.isBlank (dropMarks value) = true := by
    rw [he, hv]
    exact ⟨fun hb => absurd hb Bool.false_ne_true, fun hb => absurd hb.1 hrule⟩
  cases rule with
  | newSemantic given => exact hnot (isBlank_marked given) (by simp) (Option.some.inj h).symm
  | newNumeric given =>
    refine hnot ?_ (by simp) (Option.some.inj h).symm
    rw [Text.isBlank_append, Bool.and_eq_false_iff]
    exact Or.inr (by decide)
  | numeric =>
    rw [value?] at h
    by_cases hawaits : placeholder ∈ value
    · rw [if_pos hawaits] at h
      obtain ⟨part, hpart, rfl⟩ := Option.map_eq_some_iff.1 h
      obtain ⟨t, -, ht⟩ := Option.bind_eq_some_iff.1 hpart
      refine hnot ?_ (by simp) rfl
      rwa [isBlank_fill (Text.isBlank_of_nonBlank? ht)]
    · rw [if_neg hawaits] at h
      exact hnot hvalue (by simp) (Option.some.inj h).symm
  | development =>
    refine hnot ?_ (by simp) (Option.some.inj h).symm
    rwa [isBlank_stampMark, isBlank_zero]
  | release =>
    have hzero : Text.isBlank (dropMarks (zero value)) = Text.isBlank (dropMarks value) := by
      rw [dropMarks_zero, isBlank_zero]
    rw [← Option.some.inj h]
    rcases releaseValue_cases o.releaseVersion value with
      ⟨hmark, he⟩ | ⟨-, ⟨given, hgiven, he⟩ | ⟨hnone, he⟩⟩
    · rw [he, ← hzero, dropMarks_of_contains_eq_false hmark, isBlank_zero, hvalue]
      simp
    · obtain ⟨t, -, ht⟩ := Option.bind_eq_some_iff.1 hgiven
      have hhyphen : '-' ∉ given := notMem_nonBlank (by decide) ho.releaseVersion hgiven
      rw [he, dropMarks_of_hyphen_notMem hhyphen, Text.isBlank_of_nonBlank? ht, hgiven]
      simp
    · rw [he, hzero]
      simp [hnone]

/-- **No rule brings a quote into a value.** -/
theorem count_quote_le (ho : o.GivesNumbers) {rule : Rule}
    (hgiven : ∀ t ∈ rule.given?, ∀ c ∈ t, isNumberChar c = true) {value v : Text}
    (h : rule.value? o value = some v) : v.count '"' ≤ value.count '"' := by
  have hfree {w : Text} (hw : '"' ∉ w) : w.count '"' ≤ value.count '"' := by
    rw [List.count_eq_zero_of_not_mem hw]
    exact Nat.zero_le _
  have hzero : (zero value).count '"' = value.count '"' :=
    Text.count_replace_of_notMem (by decide) (by decide) value
  cases rule with
  | newSemantic given =>
    have hquote : '"' ∉ given := notMem_of_isNumberChar (by decide) (hgiven given rfl)
    rw [← Option.some.inj h]
    refine hfree ?_
    unfold marked
    split
    · exact hquote
    · exact fun hm => (List.mem_append.1 hm).elim hquote (by decide)
  | newNumeric given =>
    have hquote : '"' ∉ given := notMem_of_isNumberChar (by decide) (hgiven given rfl)
    rw [← Option.some.inj h]
    refine hfree fun hm => ?_
    exact (List.mem_append.1 hm).elim (fun hm => hquote ((dropMarks_sublist given).subset hm))
      (by decide)
  | numeric =>
    rw [value?] at h
    by_cases hawaits : placeholder ∈ value
    · rw [if_pos hawaits] at h
      obtain ⟨part, hpart, rfl⟩ := Option.map_eq_some_iff.1 h
      have hquote : '"' ∉ filling part (value.count '.') := fun hm =>
        notMem_nonBlank (by decide) ho.versionPart hpart (mem_of_mem_filling (by decide) hm)
      exact Nat.le_of_eq (Text.count_replace_of_notMem hquote (by decide) value)
    · rw [if_neg hawaits] at h
      exact Option.some.inj h ▸ Nat.le_refl _
  | release =>
    rw [← Option.some.inj h]
    rcases releaseValue_cases o.releaseVersion value with
      ⟨-, he⟩ | ⟨-, ⟨given, hgiven, he⟩ | ⟨-, he⟩⟩
    · rw [he]
      exact Nat.le_of_eq hzero
    · have hquote : '"' ∉ given := notMem_nonBlank (by decide) ho.releaseVersion hgiven
      rw [he]
      exact hfree fun hm => hquote ((dropMarks_sublist given).subset hm)
    · rw [he, ← hzero]
      exact (dropMarks_sublist (zero value)).count_le '"'
  | development =>
    have hstamp : '"' ∉ o.now.stamp := o.now.isStamp_stamp.notMem (by decide) (by decide)
    rw [← Option.some.inj h, count_stampMark hstamp]
    exact Nat.le_of_eq hzero

end Rule

/-- A release that has no version of its own, behind the logical lines `upTo`. -/
structure StripsMarks (m : Markers) (o : StampOptions) (upTo : List Group) : Prop where
  isRelease : o.isRelease = true
  notNew : o.newDevelopment = none
  semantic : declaresSemantic m upTo = true
  noVersion : o.releaseVersion.bind Text.nonBlank? = none

/-- A line without the second version is released by such options, and by no others. -/
theorem Selects.eq_release_iff {semantic : Bool} {line : Text} {rule : Rule}
    (h : Selects m o semantic line rule) (hfile : m.isFileVersion line = false) :
    rule = .release ↔ o.newDevelopment = none ∧ semantic = true ∧ o.isRelease = true := by
  cases h with
  | newSemantic hnew | newNumeric hnew => simp [hnew]
  | numeric hnew hnumeric =>
    have hsemantic : semantic = false := by simpa [hfile] using hnumeric
    simp [hsemantic]
  | release hnew _ hsemantic hrelease => simp [hnew, hsemantic, hrelease]
  | development _ _ _ hrelease => simp [hrelease]

end Stamping

/-- What a version line declares: its quoted value, or what follows its first `=` where it has
none. -/
def Text.declared (line : Text) : Text :=
  match Quoted.split? line with
  | some q => q.value
  | none => ((Text.splitAtFirst '=' line).map Prod.snd).getD []

/-- A file whose version lines declare something. -/
def Profile.DeclaresValues (p : Profile) (content : Text) : Prop :=
  ∀ g ∈ p.groups content, g.declares = true → Text.isBlank (Text.declared g.text) = false

instance (p : Profile) (content : Text) : Decidable (p.DeclaresValues content) :=
  inferInstanceAs (Decidable (∀ g ∈ p.groups content,
    g.declares = true → Text.isBlank (Text.declared g.text) = false))

namespace Stamping

/-- The version of the line that is reported is blank in two cases. -/
theorem StampedAs.isBlank_iff (ho : o.GivesNumbers) {upTo after : List Group} {g : Group}
    {out : List Line} (hlast : IsLastReporting m g after)
    (hvalue : Text.isBlank (Text.declared g.text) = false) (h : StampedAs m o upTo g out) :
    Text.isBlank (Text.quoted (out.flatMap Line.text)) = true ↔
      Quoted.split? g.text = none ∨
        StripsMarks m o upTo ∧ Text.isBlank (dropMarks (Text.quoted g.text)) = true := by
  obtain ⟨rule, v, hrule, hv, htext⟩ := h.exists_value hlast.declares
  rw [htext]
  cases hq : Quoted.split? g.text with
  | none =>
    have hcount := Rule.count_quote_le ho (hrule.given?_eq ▸ ho.newDevelopment) hv
    have hfew := (Quoted.split?_eq_none_iff g.text).1 hq
    have hnone : Quoted.split? v = none := by
      rw [Text.quotedOrAll, hq] at hcount
      exact (Quoted.split?_eq_none_iff v).2 (Nat.le_trans hcount hfew)
    simp [Text.mapQuoted, hq, Text.quoted, hnone, Text.isBlank]
  | some q =>
    have hquoted : Text.quoted g.text = q.value := by rw [Text.quoted, hq]
    have hall : Text.quotedOrAll g.text = q.value := by rw [Text.quotedOrAll, hq]
    have hdeclared : Text.isBlank q.value = false := by rwa [Text.declared, hq] at hvalue
    rw [hall] at hv
    rw [Text.quoted_mapQuoted hq, Rule.isBlank_iff ho hdeclared hv,
      hrule.eq_release_iff hlast.isFileVersion_eq, hquoted]
    constructor
    · rintro ⟨⟨hnew, hsemantic, hrelease⟩, hversion, hblank⟩
      exact Or.inr ⟨⟨hrelease, hnew, hsemantic, hversion⟩, hblank⟩
    · rintro (hnone | ⟨hstrips, hblank⟩)
      · cases hnone
      · exact ⟨⟨hstrips.notNew, hstrips.semantic, hstrips.isRelease⟩, hstrips.noVersion, hblank⟩

end Stamping

open Stamping

/-- **A file whose version lines declare something is stamped with a version that is not blank**,
unless the last line that has a say has no quotes, or is released without its marks and has nothing
else. -/
theorem stampSource_reported (l : Language) {o : StampOptions} (ho : o.GivesNumbers) (path : Path)
    {content : Text} (hvalues : l.profile.DeclaresValues content) {r : Stamped}
    (h : stampSource l.profile o path (Source.ofText content) = .ok r) :
    ∃ before g after, l.profile.groups content = before ++ g :: after ∧
      IsLastReporting l.profile.markers g after ∧
      (Text.isBlank r.version = true ↔ Quoted.split? g.text = none ∨
        StripsMarks l.profile.markers o (before ++ [g]) ∧
          Text.isBlank (dropMarks (Text.quoted g.text)) = true) := by
  obtain ⟨outs, hpw⟩ := Stamped.exists_pointwise h
  obtain ⟨before, g, after, out, hsplit, hlast, hstamped, hversion⟩ := hpw.exists_reported
  have hmem : g ∈ l.profile.groups content := hsplit ▸ List.mem_append_right _ List.mem_cons_self
  refine ⟨before, g, after, hsplit, hlast, ?_⟩
  rw [hversion]
  exact hstamped.isBlank_iff ho hlast (hvalues g hmem hlast.declares)

/-- A semantic version under development, and a second version without quotes. -/
def unquotedFileVersion : Text :=
  "CUSTOM-ATTRIBUTE CA-ASSEMBLYINFORMATIONALVERSION\n USING \"1.*.0-d\".\n".toList ++
    "CUSTOM-ATTRIBUTE CA-ASSEMBLYFILEVERSION\n = 1.0\n"

/-- Its release drops a mark, and is reported, since the line with quotes is the last that has a
say. -/
theorem stampSource_reported_release :
    ∃ r before g after,
      stampSource Language.cobol.profile { isRelease := true, now := ⟨2019, 1, 1, 12, 0⟩ } "info"
        (Source.ofText unquotedFileVersion) = .ok r ∧
      r.version = "1.0.0".toList ∧
      Language.cobol.profile.groups unquotedFileVersion = before ++ g :: after ∧
      IsLastReporting Markers.cobol g after ∧ (Quoted.split? g.text).isSome = true := by
  have ho : StampOptions.GivesNumbers { isRelease := true, now := ⟨2019, 1, 1, 12, 0⟩ } :=
    ⟨by simp, by simp, by simp⟩
  have h : stampSource Language.cobol.profile { isRelease := true, now := ⟨2019, 1, 1, 12, 0⟩ }
      "info" (Source.ofText unquotedFileVersion) = .ok {
        content := "CUSTOM-ATTRIBUTE CA-ASSEMBLYINFORMATIONALVERSION\n USING \"1.0.0\".\n".toList ++
          "CUSTOM-ATTRIBUTE CA-ASSEMBLYFILEVERSION\n = 1.0\n"
        version := "1.0.0"
        isSemantic := true
        next := ⟨"1.1.0", "1.1.0-d"⟩
        path := "info" } := by
    decide +kernel
  obtain ⟨before, g, after, hsplit, hlast, hblank⟩ :=
    stampSource_reported .cobol ho "info" (by decide +kernel) h
  refine ⟨_, before, g, after, h, rfl, hsplit, hlast, ?_⟩
  cases hq : Quoted.split? g.text with
  | some q => rfl
  | none => exact absurd (hblank.2 (Or.inl hq)) (by decide)

/-- **The version need not be reported**: a number without quotes is not, and of a mark nothing is
left to release. -/
theorem stampSource_reported_blank :
    (StampOptions.GivesNumbers { now := ⟨2019, 1, 1, 12, 0⟩ } ∧
      Language.tsql.profile.DeclaresValues "DbVersion = 1.0" ∧
      ∃ r, stampSource Language.tsql.profile { now := ⟨2019, 1, 1, 12, 0⟩ } "info"
          (Source.ofText "DbVersion = 1.0") = .ok r ∧
        Text.isBlank r.version = true) ∧
    StampOptions.GivesNumbers { isRelease := true, now := ⟨2019, 1, 1, 12, 0⟩ } ∧
      Language.tsql.profile.DeclaresValues "DbInformationalVersion = \"-d\"" ∧
      ∃ r, stampSource Language.tsql.profile { isRelease := true, now := ⟨2019, 1, 1, 12, 0⟩ }
          "info" (Source.ofText "DbInformationalVersion = \"-d\"") = .ok r ∧
        Text.isBlank r.version = true :=
  ⟨⟨⟨by simp, by simp, by simp⟩, by decide +kernel,
      ⟨"DbVersion = 1.0", "", false, ⟨"", "-d"⟩, "info"⟩, by decide +kernel, rfl⟩,
    ⟨by simp, by simp, by simp⟩, by decide +kernel,
    ⟨"DbInformationalVersion = \"\"", "", true, ⟨"", "-d"⟩, "info"⟩, by decide +kernel, rfl⟩

end Nameplate
