/-
# Stamping the same way again

A release and the start of a new development settle a file: stamped again with
the same options, it stays as it is, and the same is reported
(`stampSource_repeated`).

What a rule makes of a version line, the rule for that line leaves alone
(`stampedAt_stamped`): there is no number left to fill in, no mark left where a
release replaces marks, and a new version replaces itself. The rule for a line
is the same the second time, since the gates see past the value, and the lines
of a pair are found again wherever they were cut (`stampSource_stampedInto`).
A mark on a line that only the numeric rule stamps may stay; that rule does not
look at it.

Key definition: `StampOptions.IsConclusive`.
Key theorems: `Stamping.stampedAt_stamped`, `Stamping.StampedInto.again`,
`stampSource_repeated`.
-/
import Nameplate.Proofs.Version.Chain
import Nameplate.Proofs.Version.Clock
import Nameplate.Proofs.Version.FixedPoint

namespace Nameplate

open Template

/-- Options that put no time into a file, and with which every rule gives a version value. -/
structure StampOptions.IsConclusive (o : StampOptions) : Prop where
  undated : o.Undated
  versionPart : ∃ part, o.versionPart = some part ∧ part ≠ [] ∧ AllDigits part
  releaseVersion : ∀ v ∈ o.releaseVersion, IsGiven v
  newDevelopment : ∀ v ∈ o.newDevelopment, IsGiven v

namespace StampOptions.IsConclusive

variable {o : StampOptions}

theorem isPlain (h : o.IsConclusive) (hyear : 0 ≤ o.now.year ∧ o.now.year ≤ 9999) : o.IsPlain :=
  ⟨h.versionPart, h.releaseVersion, h.newDevelopment, hyear⟩

theorem with_now (h : o.IsConclusive) (now : Moment) :
    StampOptions.IsConclusive { o with now := now } :=
  ⟨h.undated, h.versionPart, h.releaseVersion, h.newDevelopment⟩

end StampOptions.IsConclusive

/-! ### One version line -/

namespace Template

/-- A number has nothing to be released from. -/
theorem releaseValue_of_isNumber (version : Option Text) {v : Text} (h : IsNumber v) :
    releaseValue version v = v := by
  rw [releaseValue, zero_of_notMem h.placeholder_notMem]
  simp only [contains_mark_of_hyphen_notMem h.hyphen_notMem, Bool.false_eq_true, if_false]

/-- What the numeric rule has filled in, it leaves alone. -/
theorem numeric_stamped {part : Option Text}
    (hpart : ∀ p ∈ part.bind Text.nonBlank?, placeholder ∉ p) {q : Quoted}
    (hb : '"' ∉ q.before) (ha : '"' ∉ q.after) {stamped : Text}
    (h : numeric part q.line = some stamped) : numeric part stamped = some stamped := by
  by_cases haw : awaitsPart q.line = true
  · rw [numeric, if_pos haw] at h
    obtain ⟨p, hp, rfl⟩ := Option.map_eq_some_iff.1 h
    refine numeric_of_not_awaitsPart ?_ part
    rw [Text.mapQuoted_line hb ha, awaitsPart_line (q := { q with value := fill p q.value }) hb ha]
    exact decide_eq_false (placeholder_notMem_fill (hpart p hp) q.value)
  · rw [numeric, if_neg haw] at h
    rw [← Option.some.inj h]
    exact numeric_of_not_awaitsPart (by simpa using haw) part

end Template

/-- A change of the value that settles it settles its line. -/
theorem Text.mapQuoted_mapQuoted {q : Quoted} (hb : '"' ∉ q.before) (ha : '"' ∉ q.after)
    {f : Text → Text} (hf : f (f q.value) = f q.value) :
    mapQuoted f (mapQuoted f q.line) = mapQuoted f q.line := by
  have htwice := mapQuoted_line (q := { q with value := f q.value }) hb ha f
  rw [mapQuoted_line hb ha, htwice, hf]

namespace Stamping

variable {m : Markers} {o : StampOptions}

/-- **What a rule has made of a version line, it leaves alone**, where the line is still a line of
its kind and the declarations up to it still say the same of semantic versions. -/
theorem stampedAt_stamped (ho : o.IsConclusive) {upTo upTo' : List Group}
    (hupTo : declaresSemantic m upTo' = declaresSemantic m upTo) {q : Quoted} (hq : q.IsVersion)
    {stamped : Text}
    (hsemantic : Text.contains m.semanticVersion stamped = Text.contains m.semanticVersion q.line)
    (hfile : m.isFileVersion stamped = m.isFileVersion q.line)
    (h : stampedAt m o upTo q.line = some stamped) :
    stampedAt m o upTo' stamped = some stamped := by
  unfold stampedAt at h ⊢
  rw [hsemantic, hfile, hupTo]
  cases hnew : o.newDevelopment with
  | some v =>
    simp only [hnew] at h ⊢
    by_cases hs : Text.contains m.semanticVersion q.line = true
    · rw [if_pos hs, Option.some.injEq] at h ⊢
      rw [← h]
      exact Text.mapQuoted_mapQuoted hq.before hq.after rfl
    · rw [if_neg hs, Option.some.injEq] at h ⊢
      rw [← h]
      exact Text.mapQuoted_mapQuoted hq.before hq.after rfl
  | none =>
    simp only [hnew] at h ⊢
    by_cases hnumeric : (m.isFileVersion q.line || !declaresSemantic m upTo) = true
    · rw [if_pos hnumeric] at h ⊢
      obtain ⟨part, hpart, hne, hdigits⟩ := ho.versionPart
      have hnumber : IsNumber part := ⟨hne, fun c hc => isNumberChar_of_isDigit (hdigits c hc)⟩
      refine numeric_stamped (fun p hp => ?_) hq.before hq.after h
      rw [hpart, Option.bind_some, (IsGiven.plain hnumber).nonBlank?_eq] at hp
      rw [← Option.some.inj hp]
      exact hnumber.placeholder_notMem
    · have hrelease : o.isRelease = true := by
        simpa [StampOptions.Undated, hnew] using ho.undated
      rw [if_neg hnumeric, if_pos hrelease, Option.some.injEq] at h ⊢
      rw [← h]
      have hvalue := isNumber_releaseValue ho.releaseVersion hq.value
      exact Text.mapQuoted_mapQuoted hq.before hq.after (releaseValue_of_isNumber _ hvalue)

end Stamping

/-! ### All logical lines -/

theorem Corresponds.declaresSemantic_eq {m : Markers} : ∀ {gs gs' : List Group},
    List.Forall₂ (Corresponds m) gs gs' →
      Stamping.declaresSemantic m gs' = Stamping.declaresSemantic m gs
  | [], [], .nil => rfl
  | g :: gs, g' :: gs', .cons h hs => by
    have ih := declaresSemantic_eq hs
    unfold Stamping.declaresSemantic at ih ⊢
    rw [List.any_cons, List.any_cons, h.declares_eq, h.semantic_eq, ih]

/-- What stands for a logical line, at its place. -/
theorem Corresponds.exists_getElem? {m : Markers} {gs gs' : List Group}
    (h : List.Forall₂ (Corresponds m) gs gs') {i : Nat} {g' : Group} (hi : gs'[i]? = some g') :
    ∃ g, gs[i]? = some g ∧ Corresponds m g g' := by
  obtain ⟨hlt', rfl⟩ := List.getElem?_eq_some_iff.1 hi
  have hlt : i < gs.length := h.length_eq ▸ hlt'
  exact ⟨gs[i], List.getElem?_eq_getElem hlt, h.get hlt hlt'⟩

/-- **What stamping made of well-formed lines is stamped into itself.** -/
theorem Stamping.StampedInto.again {m : Markers} {o : StampOptions} (ho : o.IsConclusive)
    {gs gs' : List Group} (hcor : List.Forall₂ (Corresponds m) gs gs')
    (h : StampedInto m o [] gs gs') : StampedInto m o [] gs' gs' := by
  intro i g₁ g₂ hi₁ hi₂ hd
  obtain rfl := Option.some.inj (hi₁.symm.trans hi₂)
  obtain ⟨g, hi, hg⟩ := Corresponds.exists_getElem? hcor hi₁
  have hdeclares : g.declares = true := hg.declares_eq ▸ hd
  obtain ⟨q, v, hq, -, htext, -⟩ := hg.around hdeclares
  have hstamped := h i g g₁ hi hi₁ hdeclares
  have hupTo : declaresSemantic m ([] ++ gs'.take (i + 1)) =
      declaresSemantic m ([] ++ gs.take (i + 1)) :=
    Corresponds.declaresSemantic_eq (List.forall₂_take (i + 1) hcor)
  rw [htext] at hstamped
  exact stampedAt_stamped ho hupTo hq (htext ▸ hg.semantic_eq) (htext ▸ hg.fileVersion_eq) hstamped

open Stamping

/-- A well-formed file that was stamped for good stays as it is and is reported as it was. -/
theorem stampSource_stamped {p : Profile} (hp : p.IsSteady) {o : StampOptions} (ho : o.IsConclusive)
    (hplain : o.IsPlain) {path : Path} {content : Text} (hw : p.WellFormed content) {r : Stamped}
    (h : stampSource p o path (Source.ofText content) = .ok r) :
    stampSource p o path (Source.ofText r.content) = .ok r := by
  obtain ⟨r', hr', -, hcor, hlast, hinto⟩ := stampSource_stampedInto hp hplain path hw
  obtain rfl : r = r' := Except.ok.inj (h.symm.trans hr')
  obtain ⟨outs, hpw⟩ := Stamped.exists_pointwise h
  have hsemantic : declaresSemantic p.markers (p.groups r.content) = r.isSemantic :=
    (Corresponds.declaresSemantic_eq hcor).trans hpw.isSemantic_eq.symm
  rw [stampSource_of_fixed (hinto.again ho hcor) hlast, hsemantic, ← hpw.next_eq, ← hpw.path_eq]

/-- **A release and the start of a new development are done once.** Stamping what they made of a
file in the same way leaves it as it is, and reports the same. -/
theorem stampSource_repeated (l : Language) (o : StampOptions) (path : Path) (content : Text)
    (r : Stamped) (ho : o.IsConclusive) (hreturns : Text.ReturnsEndLines content)
    (hvalues : ∀ g ∈ l.profile.groups content, g.declares = true →
      ∃ q : Quoted, q.IsVersion ∧ g.text = q.line)
    (h : stampSource l.profile o path (Source.ofText content) = .ok r) :
    stampSource l.profile o path (Source.ofText r.content) = .ok r := by
  have hw : l.profile.WellFormed content :=
    ⟨hreturns, List.any_eq_true.1 (any_reports_of_stampSource h), hvalues⟩
  -- any time will do, so one whose stamp has no sign
  have hsame (source : Source) := stampSource_of_undated l.profile ho.undated o.now
    ⟨2019, 1, 1, 12, 0⟩ path source
  have hat := ho.with_now ⟨2019, 1, 1, 12, 0⟩
  have hyear : 0 ≤ (2019 : Int) ∧ (2019 : Int) ≤ 9999 := by decide
  have hstamped := stampSource_stamped l.isSteady hat (hat.isPlain hyear) hw
    ((hsame _).symm.trans h)
  exact (hsame _).trans hstamped

/-- A number to fill in before a mark, on two lines, and a semantic version on the second line of
its pair. -/
def unreleasedPairs : Text :=
  "CUSTOM-ATTRIBUTE CA-ASSEMBLYVERSION \"1.*-d\n7\".\n" ++
    "CUSTOM-ATTRIBUTE CA-ASSEMBLYINFORMATIONALVERSION\n USING \"1.*.0-d2019\""

/-- A release under another number, at a time with a sign. -/
def renumberedRelease : StampOptions :=
  { versionPart := some ['5'], isRelease := true, releaseVersion := some "2.0-d",
    now := ⟨-7, 1, 1, 12, 0⟩ }

/-- Filling in the number moves the cut of the first pair into the value, whose mark stays. -/
theorem stampSource_repeated_pairs :
    ∃ r : Stamped,
      stampSource Language.cobol.profile renumberedRelease "info"
        (Source.ofText unreleasedPairs) = .ok r ∧
      r.content = "CUSTOM-ATTRIBUTE CA-ASSEMBLYVERSION \"1.5.0\n.0-d7\".\n".toList ++
        "CUSTOM-ATTRIBUTE CA-ASSEMBLYINFORMATIONALVERSION\n USING \"2.0\"".toList ∧
      stampSource Language.cobol.profile renumberedRelease "info"
        (Source.ofText r.content) = .ok r := by
  have hgroups : Language.cobol.profile.groups unreleasedPairs =
      [.pair ⟨"CUSTOM-ATTRIBUTE CA-ASSEMBLYVERSION \"1.*-d", .lineFeed⟩ ⟨"7\".", .lineFeed⟩,
        .pair ⟨"CUSTOM-ATTRIBUTE CA-ASSEMBLYINFORMATIONALVERSION", .lineFeed⟩
          ⟨" USING \"1.*.0-d2019\"", .none⟩] := by
    decide +kernel
  have hshort : IsTemplate "1.*-d7" :=
    @IsTemplate.marked ['1', '.', '*'] ['7']
      ⟨by decide, List.all_eq_true.1 (by decide)⟩ (List.all_eq_true.1 (by decide))
  have hlong : IsTemplate "1.*.0-d2019" :=
    @IsTemplate.marked "1.*.0" "2019"
      ⟨by decide, List.all_eq_true.1 (by decide)⟩ (List.all_eq_true.1 (by decide))
  have hgiven : IsGiven "2.0-d" :=
    @IsGiven.marked "2.0" ⟨by decide, List.all_eq_true.1 (by decide)⟩
  have ho : renumberedRelease.IsConclusive :=
    ⟨.inl rfl, ⟨['5'], rfl, by decide, List.all_eq_true.1 (by decide)⟩,
      by simpa [renumberedRelease] using hgiven, by simp [renumberedRelease]⟩
  have h : ∃ r : Stamped, stampSource Language.cobol.profile renumberedRelease "info"
      (Source.ofText unreleasedPairs) = .ok r ∧
      r.content = "CUSTOM-ATTRIBUTE CA-ASSEMBLYVERSION \"1.5.0\n.0-d7\".\n".toList ++
        "CUSTOM-ATTRIBUTE CA-ASSEMBLYINFORMATIONALVERSION\n USING \"2.0\"".toList :=
    ⟨⟨_, "2.0", true, ⟨"2.0", "2.0-d"⟩, "info"⟩, by decide +kernel, rfl⟩
  obtain ⟨r, hr, hcontent⟩ := h
  refine ⟨r, hr, hcontent, stampSource_repeated .cobol renumberedRelease "info" unreleasedPairs r ho
    (Text.returnsEndLines_of_notMem (by decide)) ?_ hr⟩
  rw [hgroups]
  simp only [List.forall_mem_cons, List.not_mem_nil, false_imp_iff, implies_true, and_true]
  exact ⟨fun _ => ⟨⟨"CUSTOM-ATTRIBUTE CA-ASSEMBLYVERSION ", "1.*-d7", ['.']⟩,
      ⟨by decide, by decide, hshort⟩, by decide⟩,
    fun _ => ⟨⟨"CUSTOM-ATTRIBUTE CA-ASSEMBLYINFORMATIONALVERSION USING ", "1.*.0-d2019", []⟩,
      ⟨by decide, by decide, hlong⟩, by decide⟩⟩

end Nameplate
