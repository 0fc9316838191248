/-
# Nothing is left to fill in

No version that comes of a stamping has a place that is still to be filled in:
none on a version line of the stamped file, not the version that is reported,
and neither of those that follow it (`stampSource_filled`). It takes options
that bring no such place themselves (`StampOptions.IsFilled`). Outside of its
value a version line may have a `*`, and keeps it.

Four of the five rules have no placeholder in what they make of a value,
whatever the value is; the numeric rule fills in a value that has one and keeps
any other (`Rule.placeholder_notMem`). The next versions are written with
characters of the reported one and with those of a strict semantic version
(`notMem_upcoming`).

Key definitions: `StampOptions.IsFilled`, `Stamped.IsFilled`.
Key theorems: `Stamping.Rule.placeholder_notMem`, `notMem_upcoming`,
`stampSource_filled`.
-/
import Nameplate.Proofs.Version.Clock
import Nameplate.Proofs.Version.NextDevelopment

namespace Nameplate

open Template

/-! ### The characters of the next versions -/

/-- The characters of a strict semantic version. -/
def isVersionChar (c : Char) : Bool :=
  SemanticVersion.isIdentifierChar c || ['.', '+'].elem c

theorem isVersionChar_of_isDigit {c : Char} (h : c.isDigit = true) : isVersionChar c = true := by
  simp [isVersionChar, SemanticVersion.isIdentifierChar, Char.isAlphanum, h]

theorem coreVersion_subset (version : Text) : coreVersion version ⊆ version := by
  unfold coreVersion
  split
  next base rest h =>
    obtain ⟨rfl, -⟩ := Text.eq_of_splitAtFirst h
    exact List.subset_append_left base _
  next => exact List.Subset.refl version

/-- A character that no strict semantic version has gets into the next versions only from the
version before them. -/
theorem notMem_upcoming {c : Char} (hc : isVersionChar c = false) {version : Text}
    (h : c ∉ version) (isRelease : Bool) :
    c ∉ (upcoming version isRelease).release ∧ c ∉ (upcoming version isRelease).development := by
  have hcore : c ∉ coreVersion version := fun hm => h (coreVersion_subset version hm)
  have hnext : c ∉ (nextMinor? (coreVersion version)).getD (coreVersion version) := by
    cases hn : nextMinor? (coreVersion version) with
    | none => exact hcore
    | some next =>
      intro hm
      rcases mem_nextMinor? hn hm with hdigit | rfl | hm
      · rw [isVersionChar_of_isDigit hdigit] at hc
        exact Bool.false_ne_true hc.symm
      · revert hc
        decide
      · exact hcore hm
  have hmark : c ∉ mark := by
    intro hm
    rcases List.mem_pair.1 hm with rfl | rfl <;> revert hc <;> decide
  refine ⟨?_, fun hm => (List.mem_append.1 hm).elim hnext hmark⟩
  unfold upcoming
  cases isRelease with
  | true => exact hnext
  | false => exact hcore

/-! ### What the rules make of a value -/

namespace Template

theorem dropMarks_sublist (t : Text) : (dropMarks t).Sublist t := by
  induction t using dropMarks.induct with
  | case1 rest ih =>
    rw [dropMarks]
    exact (ih.cons 'd').cons '-'
  | case2 c rest hmark ih =>
    rw [dropMarks]
    · exact ih.cons_cons c
    · exact hmark
  | case3 => exact List.Sublist.refl []

theorem mem_stampMark {c : Char} {stamp v : Text} (h : c ∈ stampMark stamp v) :
    c ∈ stamp ∨ c ∈ v := by
  by_contra hnot
  obtain ⟨hstamp, hv⟩ := not_or.1 hnot
  have hcount := count_stampMark hstamp v
  rw [List.count_eq_zero_of_not_mem hv] at hcount
  exact List.count_eq_zero.1 hcount h

end Template

/-- Options that bring no placeholder into a file. -/
structure StampOptions.IsFilled (o : StampOptions) : Prop where
  versionPart : ∀ t ∈ o.versionPart, placeholder ∉ t
  releaseVersion : ∀ t ∈ o.releaseVersion, placeholder ∉ t
  newDevelopment : ∀ t ∈ o.newDevelopment, placeholder ∉ t

namespace Stamping

variable {m : Markers} {o : StampOptions}

/-- What is given and not blank has no placeholder if nothing given has one. -/
theorem placeholder_notMem_nonBlank {given : Option Text} (h : ∀ t ∈ given, placeholder ∉ t)
    {s : Text} (hs : given.bind Text.nonBlank? = some s) : placeholder ∉ s := by
  obtain ⟨t, ht, hts⟩ := Option.bind_eq_some_iff.1 hs
  exact fun hm => h t ht (Text.nonBlank?_subset hts hm)

/-- **No rule leaves a placeholder in a value.** -/
theorem Rule.placeholder_notMem (ho : o.IsFilled) {rule : Rule}
    (hgiven : ∀ t ∈ rule.given?, placeholder ∉ t) {value v : Text}
    (h : rule.value? o value = some v) : placeholder ∉ v := by
  have hdrop {t : Text} (ht : placeholder ∉ t) : placeholder ∉ dropMarks t := fun hm =>
    ht ((dropMarks_sublist t).subset hm)
  cases rule with
  | newSemantic given =>
    have hnew : placeholder ∉ given := hgiven given rfl
    rw [← Option.some.inj h]
    unfold marked
    split
    · exact hnew
    · exact fun hm => (List.mem_append.1 hm).elim hnew (by decide)
  | newNumeric given =>
    have hnew : placeholder ∉ given := hgiven given rfl
    rw [← Option.some.inj h]
    exact fun hm => (List.mem_append.1 hm).elim (hdrop hnew) (by decide)
  | numeric =>
    rw [value?] at h
    by_cases hawaits : placeholder ∈ value
    · rw [if_pos hawaits] at h
      obtain ⟨part, hpart, rfl⟩ := Option.map_eq_some_iff.1 h
      exact placeholder_notMem_fill (placeholder_notMem_nonBlank ho.versionPart hpart) value
    · rw [if_neg hawaits] at h
      exact Option.some.inj h ▸ hawaits
  | release =>
    have hzero := placeholder_notMem_zero value
    rw [← Option.some.inj h]
    rcases releaseValue_cases o.releaseVersion value with
      ⟨-, he⟩ | ⟨-, ⟨version, hversion, he⟩ | ⟨-, he⟩⟩
    · rwa [he]
    · rw [he]
      exact hdrop (placeholder_notMem_nonBlank ho.releaseVersion hversion)
    · rw [he]
      exact hdrop hzero
  | development =>
    rw [← Option.some.inj h]
    intro hm
    rcases mem_stampMark hm with hstamp | hzero
    · exact o.now.isStamp_stamp.notMem (by decide) (by decide) hstamp
    · exact placeholder_notMem_zero value hzero

/-- So a declaration is stamped as one that has nothing to fill in. -/
theorem StampedAs.placeholder_notMem (ho : o.IsFilled) {upTo : List Group} {g : Group}
    {out : List Line} (h : StampedAs m o upTo g out) (hd : g.declares = true) :
    placeholder ∉ Text.quotedOrAll (out.flatMap Line.text) := by
  obtain ⟨rule, v, hrule, hv, htext⟩ := h.exists_value hd
  have hplaceholder := Rule.placeholder_notMem ho (hrule.given?_eq ▸ ho.newDevelopment) hv
  rw [htext]
  exact fun hm => hplaceholder (Text.quotedOrAll_mapQuoted_subset v g.text hm)

end Stamping

/-- A stamped file and its versions, without a place that is to be filled in; `outs` are the lines
that were made of the logical lines `gs`. -/
structure Stamped.IsFilled (gs : List Group) (outs : List (List Line)) (r : Stamped) : Prop where
  values : ∀ (i : Nat) (g : Group) (out : List Line), gs[i]? = some g → outs[i]? = some out →
    g.declares = true → placeholder ∉ Text.quotedOrAll (out.flatMap Line.text)
  version : placeholder ∉ r.version
  release : placeholder ∉ r.next.release
  development : placeholder ∉ r.next.development

/-- **Nothing is left to fill in**, neither on the version lines of a stamped file nor in the
versions that are reported. -/
theorem stampSource_filled (l : Language) {o : StampOptions} (ho : o.IsFilled) (path : Path)
    (source : Source) (r : Stamped) (h : stampSource l.profile o path source = .ok r) :
    ∃ content outs, source = Source.ofText content ∧
      r.Pointwise l.profile o path content (l.profile.groups content) outs ∧
      r.IsFilled (l.profile.groups content) outs := by
  obtain ⟨content, rfl⟩ := Source.exists_eq_ofText h
  obtain ⟨outs, hpw⟩ := Stamped.exists_pointwise h
  have hversion : placeholder ∉ r.version := by
    obtain ⟨before, g, after, out, -, hlast, hstamped, hversion⟩ := hpw.exists_reported
    have hvalue := hstamped.placeholder_notMem ho hlast.declares
    rw [hversion]
    exact fun hm => hvalue (Text.quoted_subset_quotedOrAll _ hm)
  have hnext := notMem_upcoming (by decide : isVersionChar placeholder = false) hversion o.isRelease
  rw [← hpw.next_eq] at hnext
  exact ⟨content, outs, rfl, hpw,
    fun _ _ _ hg hout hd => (hpw.stampedAs_at hg hout).placeholder_notMem ho hd,
    hversion, hnext.1, hnext.2⟩

/-- Three versions to be filled in: the second version, beside a `*` that is not its value's, one
without quotes, and a semantic version. -/
def openVersions : Text :=
  "[assembly: AssemblyFileVersion(\"1.0.*\")] /* two */\n".toList ++
    "[assembly: AssemblyVersion(1.*)]\n".toList ++
    "[assembly: AssemblyInformationalVersion(\"1.0.*-d\")]"

/-- Each of them is filled in by its own rule. -/
theorem stampSource_filled_open :
    ∃ (r : Stamped) (content : Text) (outs : List (List Line)),
      stampSource Language.csharp.profile
        { versionPart := some ['7'], now := ⟨2019, 1, 1, 12, 0⟩ } "info"
        (Source.ofText openVersions) = .ok r ∧
      r.content = "[assembly: AssemblyFileVersion(\"1.0.7.0\")] /* two */\n".toList ++
        "[assembly: AssemblyVersion(1.7.0.0)]\n".toList ++
        "[assembly: AssemblyInformationalVersion(\"1.0.0-d201901011200\")]" ∧
      Source.ofText openVersions = Source.ofText content ∧
      r.IsFilled (Language.csharp.profile.groups content) outs := by
  have ho : StampOptions.IsFilled { versionPart := some ['7'], now := ⟨2019, 1, 1, 12, 0⟩ } :=
    ⟨by simp [placeholder], by simp, by simp⟩
  have h : stampSource Language.csharp.profile
      { versionPart := some ['7'], now := ⟨2019, 1, 1, 12, 0⟩ } "info"
      (Source.ofText openVersions) = .ok {
        content := "[assembly: AssemblyFileVersion(\"1.0.7.0\")] /* two */\n".toList ++
          "[assembly: AssemblyVersion(1.7.0.0)]\n".toList ++
          "[assembly: AssemblyInformationalVersion(\"1.0.0-d201901011200\")]"
        version := "1.0.0-d201901011200"
        isSemantic := true
        next := ⟨"1.0.0", "1.1.0-d"⟩
        path := "info" } := by
    decide +kernel
  obtain ⟨content, outs, hcontent, -, hfilled⟩ :=
    stampSource_filled .csharp ho "info" (Source.ofText openVersions) _ h
  exact ⟨_, content, outs, h, rfl, hcontent, hfilled⟩

end Nameplate
