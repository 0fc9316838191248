/-
# Releasing a version under development

A development stamping announces the number that is to be released: the version
without its mark and stamp. Releasing the file it wrote drops the mark only, so
what is released is that number with the stamp directly behind it
(`stampSource_release`). It is not the number announced
(`stampSource_release_not_announced`).

The two stampings are followed line by line: what the second one knows of the
version is what the first one knew, without the mark (`Announced`). A line with
the second version is filled in by the first stamping and must not stop the
second: nothing may be left to fill in that cannot be (`FillsFor`).

Key definitions: `Profile.UnderDevelopment`, `StampOptions.FillsFor`,
`Stamping.Announced`.
Key theorem: `stampSource_release`.
-/
import Nameplate.Proofs.Version.Gates
import Nameplate.Proofs.Version.Pointwise

namespace Nameplate

open Template

/-! ### Files under development and how they are stamped -/

/-- The value of a semantic version under development: three numbers and the mark, the last of them
perhaps to be filled in. -/
inductive Template.IsDraft : Text → Prop
  | mk {major minor patch : Text} : major ≠ [] → AllDigits major → minor ≠ [] → AllDigits minor →
      patch = [placeholder] ∨ patch ≠ [] ∧ AllDigits patch →
      IsDraft (major ++ '.' :: (minor ++ '.' :: patch) ++ mark)

/-- A file whose declarations are all of a semantic version under development. -/
structure Profile.UnderDevelopment (p : Profile) (content : Text) : Prop where
  semantic : ∀ g ∈ p.groups content, g.declares = true →
    Text.contains p.markers.semanticVersion g.text = true
  draft : ∀ g ∈ p.groups content, g.declares = true →
    ∃ q : Quoted, Quoted.split? g.text = some q ∧ IsDraft q.value

namespace StampOptions

/-- Options for one more step of development. -/
structure IsDevelopment (o : StampOptions) : Prop where
  isRelease : o.isRelease = false
  newDevelopment : o.newDevelopment = none
  year : 0 ≤ o.now.year ∧ o.now.year ≤ 9999

/-- Options for the release of the version that is there. -/
structure IsOwnRelease (o : StampOptions) : Prop where
  isRelease : o.isRelease = true
  newDevelopment : o.newDevelopment = none
  releaseVersion : o.releaseVersion = none

/-- What `o` fills in begins no line, and has no placeholder unless `o'` has something for it. -/
structure FillsFor (o o' : StampOptions) : Prop where
  lineFeed : ∀ part ∈ o.versionPart.bind Text.nonBlank?, '\n' ∉ part
  placeholder : ∀ part ∈ o.versionPart.bind Text.nonBlank?, Template.placeholder ∈ part →
    (o'.versionPart.bind Text.nonBlank?).isSome = true

end StampOptions

namespace Template

/-- A draft is a base with a mark. -/
theorem IsDraft.exists_base {v : Text} (h : IsDraft v) :
    ∃ base, IsBase base ∧ v = base ++ mark := by
  have hdigits {t : Text} (ht : AllDigits t) (c : Char) (hc : c ∈ t) : isBaseChar c = true :=
    isBaseChar_of_isNumberChar (isNumberChar_of_isDigit (ht c hc))
  obtain @⟨major, minor, patch, _, hmajor, _, hminor, hpatch⟩ := h
  refine ⟨major ++ '.' :: (minor ++ '.' :: patch), ⟨by simp, fun c hc => ?_⟩, rfl⟩
  simp only [List.mem_append, List.mem_cons] at hc
  rcases hc with hc | rfl | hc | rfl | hc
  · exact hdigits hmajor c hc
  · decide
  · exact hdigits hminor c hc
  · decide
  · rcases hpatch with rfl | ⟨_, hpatch⟩
    · obtain rfl := List.mem_singleton.1 hc
      decide
    · exact hdigits hpatch c hc

/-! ### One value -/

/-- A base with a mark, one step of development on. -/
theorem stampMark_zero {base : Text} (hb : IsBase base) (stamp : Text) :
    ∃ number, IsNumber number ∧
      stampMark stamp (zero (base ++ mark)) = number ++ mark ++ stamp := by
  have hn := hb.replace isNumber_zero
  have hzero := @replace_marked ['0'] base [] fun _ hc => absurd hc List.not_mem_nil
  have hstamp := stampMark_marked stamp hn.hyphen_notMem []
  rw [List.append_nil, List.append_nil] at hzero hstamp
  exact ⟨_, hn, by rw [zero, hzero, hstamp]⟩

/-- A release drops the mark and nothing else: the stamp stays. -/
theorem releaseValue_marked {number stamp : Text} (hn : IsNumber number) (hs : AllDigits stamp) :
    releaseValue none (number ++ mark ++ stamp) = number ++ stamp := by
  have hzero : zero (number ++ mark ++ stamp) = number ++ mark ++ stamp := by
    rw [zero, replace_marked ['0'] number hs, Text.replace_of_notMem hn.placeholder_notMem]
  rw [releaseValue, hzero]
  simp only [contains_mark, if_true, Option.bind_none]
  exact dropMarks_marked hn.hyphen_notMem (hs.notMem (by decide))

theorem awaitsPart_line {q : Quoted} (hb : '"' ∉ q.before) (ha : '"' ∉ q.after) :
    awaitsPart q.line = decide (placeholder ∈ q.value) := by
  rw [awaitsPart, Text.quotedOrAll_line hb ha]

/-- The numeric rule on a line with the second version, followed by another numeric rule. -/
theorem numeric_numeric {o o' : StampOptions} (ho : o.FillsFor o') {q : Quoted} (hq : q.IsVersion)
    {stamped : Text} (h : numeric o.versionPart q.line = some stamped) :
    ∃ w, stamped = Quoted.line { q with value := w } ∧ '\n' ∉ w ∧
      (numeric o'.versionPart stamped).isSome = true := by
  unfold numeric at h
  by_cases haw : awaitsPart q.line = true
  · rw [if_pos haw] at h
    obtain ⟨part, hpart, hstamped⟩ := Option.map_eq_some_iff.1 h
    rw [Text.mapQuoted_line hq.before hq.after] at hstamped
    refine ⟨fill part q.value, hstamped.symm, fun hm => ?_, ?_⟩
    · rcases Text.mem_replace hm with hm | ⟨hm, _⟩
      · exact ho.lineFeed part hpart (mem_of_mem_filling (by decide) hm)
      · exact hq.value.lineFeed_notMem hm
    · rw [← hstamped, Option.isSome_iff_ne_none, ne_eq, numeric_eq_none_iff]
      rintro ⟨haw', hnone⟩
      rw [awaitsPart_line (q := { q with value := fill part q.value }) hq.before hq.after,
        decide_eq_true_eq] at haw'
      rcases Text.mem_replace haw' with hm | ⟨_, hne⟩
      · have hsome := ho.placeholder part hpart (mem_of_mem_filling (by decide) hm)
        simp [hnone] at hsome
      · exact hne rfl
  · rw [if_neg haw, Option.some.injEq] at h
    subst h
    refine ⟨q.value, rfl, hq.value.lineFeed_notMem, ?_⟩
    rw [numeric_of_not_awaitsPart (by simpa using haw)]
    rfl

end Template

/-! ### One line -/

theorem Quoted.getLast?_line (q : Quoted) : q.line.getLast? = ('"' :: q.after).getLast? := by
  have hline : q.line = (q.before ++ '"' :: q.value) ++ '"' :: q.after := by simp [line]
  rw [hline, List.getLast?_append, List.getLast?_cons, Option.some_or]

/-- A version line stays a line of a file when its value is replaced by text without a line feed. -/
theorem Line.IsPhysical.with_value {l : Line} (hl : l.IsPhysical) {q : Quoted}
    (ht : l.text = q.line) {w : Text} (hw : '\n' ∉ w) :
    Line.IsPhysical { l with text := Quoted.line { q with value := w } } := by
  refine ⟨Quoted.notMem_line (ht ▸ hl.lineFeed_notMem) hw, fun he => ?_, fun _ => ?_⟩
  · show (Quoted.line { q with value := w }).getLast? ≠ some '\r'
    rw [Quoted.getLast?_line, ← Quoted.getLast?_line q, ← ht]
    exact hl.noReturn he
  · simp [Quoted.line]

namespace Stamping

variable {p : Profile} {m : Markers} {o o' : StampOptions}

theorem stampText_of_fileVersion (hnew : o.newDevelopment = none) {line : Text}
    (hf : m.isFileVersion line = true) (s : State) :
    stampText m o s line =
      (Template.numeric o.versionPart line).map fun stamped =>
        (stamped, s.advance m line stamped) := by
  simp [stampText, ruleFor, hnew, hf, Rule.apply]

theorem stampText_of_semantic (hnew : o.newDevelopment = none) {line : Text}
    (hf : m.isFileVersion line = false) (hs : Text.contains m.semanticVersion line = true)
    (s : State) :
    stampText m o s line =
      let stamped :=
        if o.isRelease then Template.release o.releaseVersion line
        else Template.development o.now line
      some (stamped, s.advance m line stamped) := by
  cases hr : o.isRelease <;> simp [stampText, ruleFor, hnew, hf, hs, hr, Rule.apply]

/-- What a development stamping has as the version, and what the release of its file has. -/
inductive Announced (stamp : Text) : Option Text → Option Text → Prop
  | nothing : Announced stamp none none
  | number {number : Text} : IsNumber number →
      Announced stamp (some (number ++ mark ++ stamp)) (some (number ++ stamp))

theorem Announced.of_some {stamp v : Text} {w : Option Text} (h : Announced stamp (some v) w) :
    ∃ number, IsNumber number ∧ v = number ++ mark ++ stamp ∧ w = some (number ++ stamp) := by
  cases h with
  | number hn => exact ⟨_, hn, rfl, rfl⟩

/-- A line with the second version: what the first stamping makes of it does not stop the second. -/
theorem stampText_fileVersion_twice (hp : p.IsSteady) (hnew : o.newDevelopment = none)
    (hnew' : o'.newDevelopment = none) (hfills : o.FillsFor o') {q : Quoted} (hq : q.IsVersion)
    (hf : p.markers.isFileVersion q.line = true) {s s₁ : State} {stamped : Text}
    (h : stampText p.markers o s q.line = some (stamped, s₁)) (t : State) :
    s₁.version = s.version ∧ ∃ w, stamped = Quoted.line { q with value := w } ∧ '\n' ∉ w ∧
      ∃ stamped' t₁, stampText p.markers o' t stamped = some (stamped', t₁) ∧
        t₁.version = t.version := by
  rw [stampText_of_fileVersion hnew hf] at h
  obtain ⟨x, hx, he⟩ := Option.map_eq_some_iff.1 h
  obtain ⟨rfl, rfl⟩ := Prod.mk.inj he
  obtain ⟨w, hw, hn, hsome⟩ := numeric_numeric hfills hq hx
  obtain ⟨stamped', hstamped'⟩ := Option.isSome_iff_exists.1 hsome
  have hf' : p.markers.isFileVersion x = true := by
    unfold Markers.isFileVersion at hf ⊢
    cases hm : p.markers.fileVersion with
    | none => simp [hm] at hf
    | some f =>
      have hforeign : IsForeign f := hp.version (by simp [Markers.versions, hm])
      rw [hm, Option.any_some, hforeign.contains_line hq, Bool.or_eq_true] at hf
      rw [hw, Option.any_some, Quoted.line, hforeign.contains_quote, hforeign.contains_quote]
      rcases hf with hf | hf <;> simp [hf]
  refine ⟨by simp [State.advance, hf], w, hw, hn, stamped', t.advance p.markers x stamped', ?_, ?_⟩
  · rw [stampText_of_fileVersion hnew' hf', hstamped']
    rfl
  · simp [State.advance, hf']

/-- A line with the version that is reported: the second stamping finds the stamp of the first and
drops the mark before it. -/
theorem stampText_semantic_twice (hp : p.IsSteady) (ho : o.IsDevelopment) (ho' : o'.IsOwnRelease)
    {q : Quoted} (hq : q.IsVersion) {base : Text} (hb : IsBase base) (hval : q.value = base ++ mark)
    (hf : p.markers.isFileVersion q.line = false)
    (hs : Text.contains p.markers.semanticVersion q.line = true) {s s₁ : State} {stamped : Text}
    (h : stampText p.markers o s q.line = some (stamped, s₁)) (t : State) :
    ∃ w, IsTemplate w ∧ stamped = Quoted.line { q with value := w } ∧
      ∃ stamped' t₁, stampText p.markers o' t stamped = some (stamped', t₁) ∧
        Announced o.now.stamp s₁.version t₁.version := by
  have hdigits := Moment.allDigits_stamp ho.year
  obtain ⟨number, hn, hnumber⟩ := stampMark_zero hb o.now.stamp
  have hw : IsTemplate (number ++ mark ++ o.now.stamp) := .marked hn.isBase hdigits
  have hq' := hq.with_value hw
  have hline : Template.development o.now q.line =
      Quoted.line { q with value := number ++ mark ++ o.now.stamp } := by
    rw [Template.development, Text.mapQuoted_line hq.before hq.after, hval, hnumber]
  have hrelease :
      Template.release none (Quoted.line { q with value := number ++ mark ++ o.now.stamp }) =
        Quoted.line { q with value := number ++ o.now.stamp } := by
    rw [Template.release, Text.mapQuoted_line hq'.before hq'.after, releaseValue_marked hn hdigits]
  have hquoted (v : Text) : Text.quoted (Quoted.line { q with value := v }) = v := by
    rw [Text.quoted, Quoted.split?_line (q := { q with value := v }) hq.before hq.after]
  rw [stampText_of_semantic ho.newDevelopment hf hs] at h
  simp only [ho.isRelease, Bool.false_eq_true, if_false, hline, Option.some.injEq] at h
  obtain ⟨rfl, rfl⟩ := Prod.mk.inj h
  have hf' := (hp.isFileVersion_line hq hw).trans hf
  have hs' := (hp.semantic_line hq hw).trans hs
  refine ⟨_, hw, rfl, _, _, stampText_of_semantic ho'.newDevelopment hf' hs' t, ?_⟩
  simp only [ho'.isRelease, ho'.releaseVersion, if_true, hrelease, State.advance, hf, hf',
    Bool.false_eq_true, if_false, hquoted]
  exact .number hn

end Stamping

/-! ### All lines -/

/-- A line that can be stamped with `o` and then with `o'`: no declaration, or a draft. -/
structure Line.Releasable (p : Profile) (o o' : StampOptions) (l : Line) : Prop where
  semantic : p.declaresVersion l.text = true → Text.contains p.markers.semanticVersion l.text = true
  draft : p.declaresVersion l.text = true → ∃ (q : Quoted) (base : Text), q.IsVersion ∧
    IsBase base ∧ q.value = base ++ mark ∧ l.text = q.line
  fills : p.declaresVersion l.text = true → p.markers.isFileVersion l.text = true → o.FillsFor o'

namespace Stamping

variable {p : Profile} {o o' : StampOptions}

/-- **One line, stamped and then released.** -/
theorem stampGroup_twice (hp : p.IsSteady) (ho : o.IsDevelopment) (ho' : o'.IsOwnRelease) {l : Line}
    (hl : l.IsPhysical) (hr : l.Releasable p o o') {s s₁ t : State}
    (hst : Announced o.now.stamp s.version t.version) {written : List Line}
    (h : stampGroup p.markers o s (Group.ofLine p.declaresVersion l) = some (written, s₁)) :
    ∃ l' written' t₁, written = [l'] ∧ l'.IsPhysical ∧ l'.ending = l.ending ∧
      stampGroup p.markers o' t (Group.ofLine p.declaresVersion l') = some (written', t₁) ∧
      Announced o.now.stamp s₁.version t₁.version := by
  cases hd : p.declaresVersion l.text with
  | false =>
    rw [stampGroup_other hd, Option.some.injEq] at h
    obtain ⟨rfl, rfl⟩ := Prod.mk.inj h
    exact ⟨l, [l], t, rfl, hl, rfl, stampGroup_other hd t, hst⟩
  | true =>
    obtain ⟨q, base, hq, hb, hval, ht⟩ := hr.draft hd
    rw [stampGroup_single hd] at h
    obtain ⟨⟨stamped, s'⟩, hstamp, he⟩ := Option.map_eq_some_iff.1 h
    obtain ⟨rfl, rfl⟩ := Prod.mk.inj he
    rw [ht] at hstamp
    cases hf : p.markers.isFileVersion l.text with
    | true =>
      obtain ⟨hs, w, rfl, hn, stamped', t₁, hstamp', ht₁⟩ :=
        stampText_fileVersion_twice hp ho.newDevelopment ho'.newDevelopment (hr.fills hd hf) hq
          (ht ▸ hf) hstamp t
      have hphysical := hl.with_value ht hn
      -- what was filled in may have made a comment of the line
      cases hd' : p.declaresVersion (Quoted.line { q with value := w }) with
      | false =>
        refine ⟨_, _, t, rfl, hphysical, rfl, stampGroup_other hd' t, ?_⟩
        rw [hs]
        exact hst
      | true =>
        refine ⟨_, [{ l with text := stamped' }], t₁, rfl, hphysical, rfl, ?_, ?_⟩
        · rw [stampGroup_single hd', hstamp']
          rfl
        · rw [hs, ht₁]
          exact hst
    | false =>
      obtain ⟨w, hw, rfl, stamped', t₁, hstamp', ht₁⟩ :=
        stampText_semantic_twice hp ho ho' hq hb hval (ht ▸ hf) (ht ▸ hr.semantic hd) hstamp t
      have hd' := hp.declaresVersion_line hq hw (ht ▸ hd)
      have hphysical := hl.with_value ht hw.lineFeed_notMem
      refine ⟨_, [{ l with text := stamped' }], t₁, rfl, hphysical, rfl, ?_, ht₁⟩
      rw [stampGroup_single hd', hstamp']
      rfl

/-- **All lines, stamped and then released.** -/
theorem stampGroups_twice (hp : p.IsSteady) (ho : o.IsDevelopment) (ho' : o'.IsOwnRelease) :
    ∀ {ls : List Line}, Line.Proper ls → (∀ l ∈ ls, l.Releasable p o o') →
      ∀ {s s' t : State} {written : List Line}, Announced o.now.stamp s.version t.version →
        stampGroups p.markers o s (ls.map (Group.ofLine p.declaresVersion)) = some (written, s') →
        Line.Proper written ∧ (ls = [] → written = []) ∧ ∃ written' t',
          stampGroups p.markers o' t (written.map (Group.ofLine p.declaresVersion)) =
            some (written', t') ∧
          Announced o.now.stamp s'.version t'.version
  | [], _, _, s, s', t, written, hst, h => by
    simp only [List.map_nil, stampGroups, Option.some.injEq] at h
    obtain ⟨rfl, rfl⟩ := Prod.mk.inj h
    exact ⟨trivial, fun _ => rfl, [], t, rfl, hst⟩
  | l :: ls, ⟨hl, hlast, hls⟩, hr, s, s', t, written, hst, h => by
    rw [List.forall_mem_cons] at hr
    rw [List.map_cons, stampGroups] at h
    obtain ⟨⟨first, s₁⟩, hg, h⟩ := Option.bind_eq_some_iff.1 h
    obtain ⟨⟨rest, s₂⟩, hgs, h⟩ := Option.bind_eq_some_iff.1 h
    simp only [Option.some.injEq] at h
    obtain ⟨rfl, rfl⟩ := Prod.mk.inj h
    obtain ⟨l', out, t₁, rfl, hl', hending, hstamp, hst₁⟩ :=
      stampGroup_twice hp ho ho' hl hr.1 hst hg
    obtain ⟨hproper, hnil, outs, t', hstamps, hst'⟩ := stampGroups_twice hp ho ho' hls hr.2 hst₁ hgs
    have hlast' : l'.ending = .none → rest = [] := fun he => hnil (hlast (hending ▸ he))
    refine ⟨⟨hl', hlast', hproper⟩, by simp, out ++ outs, t', ?_, hst'⟩
    show stampGroups p.markers o' t
      (Group.ofLine p.declaresVersion l' :: rest.map (Group.ofLine p.declaresVersion)) = _
    rw [stampGroups, hstamp]
    show (stampGroups p.markers o' t₁ (rest.map (Group.ofLine p.declaresVersion)) >>= fun x =>
      some (out ++ x.1, x.2)) = _
    rw [hstamps]
    rfl

end Stamping

theorem coreVersion_marked {number : Text} (h : IsNumber number) (stamp : Text) :
    coreVersion (number ++ mark ++ stamp) = number := by
  rw [List.append_assoc]
  exact coreVersion_append_hyphen h.hyphen_notMem ('d' :: stamp)

/-- **What is released is the number announced with the stamp behind it.** Where a version line has
the second version, what is filled in there must not be in the way. -/
theorem stampSource_release (l : Language) (hl : l ≠ .cobol) (path : Path) (content : Text)
    (o o' : StampOptions) (r : Stamped) (hfile : l.profile.UnderDevelopment content)
    (ho : o.IsDevelopment) (ho' : o'.IsOwnRelease)
    (hfills : (∃ g ∈ l.profile.groups content, g.declares = true ∧
      l.profile.markers.isFileVersion g.text = true) → o.FillsFor o')
    (h : stampSource l.profile o path (Source.ofText content) = .ok r) :
    ∃ r', stampSource l.profile o' path (Source.ofText r.content) = .ok r' ∧
      r'.version = r.next.release ++ o.now.stamp := by
  have hjoins : l.profile.joinsNextLine = false := by cases l <;> first | rfl | exact absurd rfl hl
  have hmap := Profile.groups_eq_map hjoins
  have hreleasable : ∀ x ∈ Line.split content, x.Releasable l.profile o o' := by
    intro x hx
    have hgroup (hd : l.profile.declaresVersion x.text = true) :
        Group.single x ∈ l.profile.groups content := by
      rw [hmap, List.mem_map]
      exact ⟨x, hx, by rw [Group.ofLine, if_pos hd]⟩
    refine ⟨fun hd => hfile.semantic _ (hgroup hd) rfl, fun hd => ?_, fun hd hf => ?_⟩
    · obtain ⟨q, hq, hdraft⟩ := hfile.draft _ (hgroup hd) rfl
      obtain ⟨hline, hb, ha⟩ := Quoted.line_of_split? hq
      obtain ⟨base, hbase, hvalue⟩ := hdraft.exists_base
      exact ⟨q, base, ⟨hb, ha, hvalue ▸ hbase.isTemplate_mark⟩, hbase, hvalue, hline⟩
    · exact hfills ⟨_, hgroup hd, rfl, hf⟩
  obtain ⟨lines, state, hstamp, hcontent, hversion, -, hnext, -⟩ := stampSource_ofText_eq_ok h
  rw [hmap] at hstamp
  obtain ⟨hproper, -, lines', state', hstamp', hannounced⟩ :=
    Stamping.stampGroups_twice l.isSteady ho ho' (Line.proper_split content) hreleasable
      (t := {}) .nothing hstamp
  have hgroups : l.profile.groups r.content =
      lines.map (Group.ofLine l.profile.declaresVersion) := by
    rw [hmap, hcontent, Line.split_join hproper]
  rw [hversion] at hannounced
  obtain ⟨number, hn, hannouncing, hreported⟩ := hannounced.of_some
  refine ⟨⟨Line.join lines', number ++ o.now.stamp, state'.semantic,
    upcoming (number ++ o.now.stamp) o'.isRelease, path⟩, ?_, ?_⟩
  · rw [stampSource_ofText, hgroups]
    simp only [hstamp', hreported]
  · show number ++ o.now.stamp = r.next.release ++ o.now.stamp
    rw [hnext, hannouncing, upcoming, ho.isRelease]
    simp only [Bool.false_eq_true, if_false, coreVersion_marked hn]

/-- A file with a semantic version, and with a line that has the second version as well. -/
def twoVersions : Text :=
  "AssemblyInformationalVersion \"1.0.0-d\"\n".toList ++
    "AssemblyFileVersion AssemblyInformationalVersion \"1.0.*-d\""

theorem underDevelopment_twoVersions :
    Language.csharp.profile.UnderDevelopment twoVersions := by
  have hgroups : Language.csharp.profile.groups twoVersions =
      [.single ⟨"AssemblyInformationalVersion \"1.0.0-d\"", .lineFeed⟩,
        .single ⟨"AssemblyFileVersion AssemblyInformationalVersion \"1.0.*-d\"", .none⟩] := by
    decide +kernel
  have hzero : AllDigits ['0'] := List.all_eq_true.1 (by decide)
  have hone : AllDigits ['1'] := List.all_eq_true.1 (by decide)
  constructor
  · rw [hgroups]
    intro g hg _
    rcases List.mem_cons.1 hg with rfl | hg
    · decide +kernel
    · obtain rfl := List.mem_singleton.1 hg
      decide +kernel
  · rw [hgroups]
    intro g hg _
    rcases List.mem_cons.1 hg with rfl | hg
    · refine ⟨⟨"AssemblyInformationalVersion ", "1.0.0-d", []⟩, by decide +kernel, ?_⟩
      exact @IsDraft.mk ['1'] ['0'] ['0'] (by decide) hone (by decide) hzero
        (Or.inr ⟨by decide, hzero⟩)
    · obtain rfl := List.mem_singleton.1 hg
      refine ⟨⟨"AssemblyFileVersion AssemblyInformationalVersion ", "1.0.*-d", []⟩,
        by decide +kernel, ?_⟩
      exact @IsDraft.mk ['1'] ['0'] ['*'] (by decide) hone (by decide) hzero (Or.inl rfl)

/-- The line with the second version is filled in by the first stamping and not in the way of the
second. -/
theorem stampSource_release_filled :
    ∃ r r' : Stamped,
      stampSource Language.csharp.profile { versionPart := some ['7'], now := ⟨2019, 1, 1, 12, 0⟩ }
        "info" (Source.ofText twoVersions) = .ok r ∧
      stampSource Language.csharp.profile { isRelease := true, now := ⟨2019, 1, 1, 12, 0⟩ } "info"
        (Source.ofText r.content) = .ok r' ∧
      r.next.release = "1.0.0".toList ∧ r'.version = "1.0.0201901011200".toList := by
  have hdevelopment : stampSource Language.csharp.profile
      { versionPart := some ['7'], now := ⟨2019, 1, 1, 12, 0⟩ } "info" (Source.ofText twoVersions) =
      .ok {
        content := "AssemblyInformationalVersion \"1.0.0-d201901011200\"\n".toList ++
          "AssemblyFileVersion AssemblyInformationalVersion \"1.0.7.0-d\""
        version := "1.0.0-d201901011200"
        isSemantic := true
        next := ⟨"1.0.0", "1.1.0-d"⟩
        path := "info" } := by
    decide +kernel
  have hfills : StampOptions.FillsFor
      { versionPart := some ['7'], now := ⟨2019, 1, 1, 12, 0⟩ }
      { isRelease := true, now := ⟨2019, 1, 1, 12, 0⟩ } := by
    have hpart : (some ['7']).bind Text.nonBlank? = some ['7'] := by decide
    refine ⟨fun part h => ?_, fun part h hp => ?_⟩
    · obtain rfl : ['7'] = part := Option.some.inj (hpart.symm.trans h)
      decide
    · obtain rfl : ['7'] = part := Option.some.inj (hpart.symm.trans h)
      exact absurd hp (by decide)
  obtain ⟨r', hr', hversion⟩ := stampSource_release .csharp (by decide) "info" twoVersions _
    { isRelease := true, now := ⟨2019, 1, 1, 12, 0⟩ } _ underDevelopment_twoVersions
    ⟨rfl, rfl, by decide⟩ ⟨rfl, rfl, rfl⟩ (fun _ => hfills) hdevelopment
  exact ⟨_, r', hdevelopment, hr', rfl, hversion.trans (by decide)⟩

/-- **The number announced is not what is released.** Behind it stands the stamp; and a line with
the second version can be in the way altogether, by a placeholder that is filled in with another, or
by a version part that begins a line with a version of its own. -/
theorem stampSource_release_not_announced :
    (Language.tsql.profile.UnderDevelopment "DbInformationalVersion \"1.0.0-d\"" ∧
      ∃ r r' : Stamped,
        stampSource Language.tsql.profile { now := ⟨2019, 1, 1, 12, 0⟩ } "info"
          (Source.ofText "DbInformationalVersion \"1.0.0-d\"") = .ok r ∧
        stampSource Language.tsql.profile { isRelease := true, now := ⟨2019, 1, 1, 12, 0⟩ } "info"
          (Source.ofText r.content) = .ok r' ∧
        r.next.release = "1.0.0".toList ∧ r'.version = "1.0.0201901011200".toList) ∧
    Language.csharp.profile.UnderDevelopment twoVersions ∧
    (∃ r : Stamped,
      stampSource Language.csharp.profile
        { versionPart := some ['7', '*'], now := ⟨2019, 1, 1, 12, 0⟩ } "info"
        (Source.ofText twoVersions) = .ok r ∧
      stampSource Language.csharp.profile { isRelease := true, now := ⟨2019, 1, 1, 12, 0⟩ } "info"
        (Source.ofText r.content) = .error (.settings (.noVersionPart "info"))) ∧
    ∃ r r' : Stamped,
      stampSource Language.csharp.profile
        { versionPart := some "7\nAssemblyInformationalVersion \"9.9", now := ⟨2019, 1, 1, 12, 0⟩ }
        "info" (Source.ofText twoVersions) = .ok r ∧
      stampSource Language.csharp.profile { isRelease := true, now := ⟨2019, 1, 1, 12, 0⟩ } "info"
        (Source.ofText r.content) = .ok r' ∧
      r.next.release = "1.0.0".toList ∧ r'.version = "9.9.0".toList := by
  have hzero : AllDigits ['0'] := List.all_eq_true.1 (by decide)
  have hone : AllDigits ['1'] := List.all_eq_true.1 (by decide)
  have hgroups : Language.tsql.profile.groups "DbInformationalVersion \"1.0.0-d\"" =
      [.single ⟨"DbInformationalVersion \"1.0.0-d\"", .none⟩] := by decide +kernel
  have hfile : Language.tsql.profile.UnderDevelopment "DbInformationalVersion \"1.0.0-d\"" := by
    constructor
    · rw [hgroups]
      intro g hg _
      obtain rfl := List.mem_singleton.1 hg
      decide +kernel
    · rw [hgroups]
      intro g hg _
      obtain rfl := List.mem_singleton.1 hg
      refine ⟨⟨"DbInformationalVersion ", "1.0.0-d", []⟩, by decide +kernel, ?_⟩
      exact @IsDraft.mk ['1'] ['0'] ['0'] (by decide) hone (by decide) hzero
        (Or.inr ⟨by decide, hzero⟩)
  refine ⟨⟨hfile, ?stamp⟩, underDevelopment_twoVersions, ?placeholder, ?line⟩
  case stamp =>
    have h : stampSource Language.tsql.profile { now := ⟨2019, 1, 1, 12, 0⟩ } "info"
          (Source.ofText "DbInformationalVersion \"1.0.0-d\"") =
          .ok ⟨"DbInformationalVersion \"1.0.0-d201901011200\"", "1.0.0-d201901011200", true,
            ⟨"1.0.0", "1.1.0-d"⟩, "info"⟩ ∧
        stampSource Language.tsql.profile { isRelease := true, now := ⟨2019, 1, 1, 12, 0⟩ } "info"
          (Source.ofText "DbInformationalVersion \"1.0.0-d201901011200\"") =
          .ok ⟨"DbInformationalVersion \"1.0.0201901011200\"", "1.0.0201901011200", true,
            ⟨"1.1.0", "1.1.0-d"⟩, "info"⟩ := by
      decide +kernel
    exact ⟨_, _, h.1, h.2, rfl, rfl⟩
  case placeholder =>
    have h : stampSource Language.csharp.profile
          { versionPart := some ['7', '*'], now := ⟨2019, 1, 1, 12, 0⟩ } "info"
          (Source.ofText twoVersions) =
          .ok ⟨"AssemblyInformationalVersion \"1.0.0-d201901011200\"\n".toList ++
              "AssemblyFileVersion AssemblyInformationalVersion \"1.0.7*.0-d\"",
            "1.0.0-d201901011200", true, ⟨"1.0.0", "1.1.0-d"⟩, "info"⟩ ∧
        stampSource Language.csharp.profile { isRelease := true, now := ⟨2019, 1, 1, 12, 0⟩ } "info"
          (Source.ofText ("AssemblyInformationalVersion \"1.0.0-d201901011200\"\n".toList ++
            "AssemblyFileVersion AssemblyInformationalVersion \"1.0.7*.0-d\"")) =
          .error (.settings (.noVersionPart "info")) := by
      decide +kernel
    exact ⟨_, h.1, h.2⟩
  case line =>
    have h : stampSource Language.csharp.profile
          { versionPart := some "7\nAssemblyInformationalVersion \"9.9", now := ⟨2019, 1, 1, 12, 0⟩ }
          "info" (Source.ofText twoVersions) =
          .ok ⟨"AssemblyInformationalVersion \"1.0.0-d201901011200\"\n".toList ++
              ("AssemblyFileVersion AssemblyInformationalVersion \"1.0.7\n".toList ++
                "AssemblyInformationalVersion \"9.9.0-d\""),
            "1.0.0-d201901011200", true, ⟨"1.0.0", "1.1.0-d"⟩, "info"⟩ ∧
        stampSource Language.csharp.profile { isRelease := true, now := ⟨2019, 1, 1, 12, 0⟩ } "info"
          (Source.ofText ("AssemblyInformationalVersion \"1.0.0-d201901011200\"\n".toList ++
            ("AssemblyFileVersion AssemblyInformationalVersion \"1.0.7\n".toList ++
              "AssemblyInformationalVersion \"9.9.0-d\""))) =
          .ok ⟨"AssemblyInformationalVersion \"1.0.0201901011200\"\n".toList ++
              ("AssemblyFileVersion AssemblyInformationalVersion \"1.0.7\n".toList ++
                "AssemblyInformationalVersion \"9.9.0\""),
            "9.9.0", true, ⟨"9.10.0", "9.10.0-d"⟩, "info"⟩ := by
      decide +kernel
    exact ⟨_, _, h.1, h.2, rfl, rfl⟩

end Nameplate
