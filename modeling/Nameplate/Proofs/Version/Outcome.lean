/-
# What stamping can come to

Stamping stops for one of three reasons: a number is to be filled in and
nothing was given to put there, a line cannot be read, or no version is
declared. Which of them is reported does not depend on the order in which the
pass meets them, but on the file alone (`StampOutcome`): a wanting number on a
logical line that was read as a whole comes first, then the failure that ended
the reading, and last the lack of a version. In every other case the file is
stamped.

A declaration whose second line could not be read was not read as a whole, so
there the failure wins over the number that is wanting.

Key definitions: `Stamping.WantsPart`, `Stamping.LacksPart`, `StampOutcome`.
Key theorems: `Stamping.stampGroups_eq_none_iff`, `StrictReading.outcome`,
`stampSource_outcome`.
-/
import Nameplate.Proofs.Line.Linewise
import Nameplate.Proofs.Version.Pointwise

namespace Nameplate
namespace Stamping

/-- Whether the declaration `g` has a number to be filled in, while nothing was given to put there;
`before` are the logical lines before it. -/
structure WantsPart (m : Markers) (o : StampOptions) (before : List Group) (g : Group) : Prop where
  declares : g.declares = true
  notNew : o.newDevelopment = none
  isNumeric : m.isFileVersion g.text = true ∨ declaresSemantic m (before ++ [g]) = false
  awaits : Template.placeholder ∈ Text.quotedOrAll g.text
  noPart : ∀ part, o.versionPart = some part → Text.isBlank part = true

variable {m : Markers} {o : StampOptions}

/-! ### One logical line -/

theorem bind_nonBlank?_eq_none_iff (part : Option Text) :
    part.bind Text.nonBlank? = none ↔ ∀ t, part = some t → Text.isBlank t = true := by
  cases part with
  | none => simp
  | some t => simp [Text.nonBlank?]

theorem stampedAt_eq_none_iff (upTo : List Group) (line : Text) :
    stampedAt m o upTo line = none ↔
      o.newDevelopment = none ∧ (m.isFileVersion line = true ∨ declaresSemantic m upTo = false) ∧
        Template.placeholder ∈ Text.quotedOrAll line ∧
          ∀ part, o.versionPart = some part → Text.isBlank part = true := by
  unfold stampedAt
  cases o.newDevelopment with
  | some v => simp only [reduceCtorEq, false_and, iff_false]; split <;> simp
  | none =>
    simp only [true_and, Bool.or_eq_true, Bool.not_eq_true']
    by_cases hn : m.isFileVersion line = true ∨ declaresSemantic m upTo = false
    · rw [if_pos hn, Template.numeric_eq_none_iff, bind_nonBlank?_eq_none_iff, and_iff_right hn,
        Template.awaitsPart, decide_eq_true_eq]
    · rw [if_neg hn]
      refine iff_of_false ?_ fun h => hn h.1
      split <;> simp

theorem stampGroup_eq_none_iff {s : State} {before : List Group}
    (hs : s.semantic = declaresSemantic m before) (g : Group) :
    stampGroup m o s g = none ↔ WantsPart m o before g := by
  have htext (hd : g.declares = true) : stampText m o s g.text = none ↔ WantsPart m o before g := by
    have hsem : (s.semantic || Text.contains m.semanticVersion g.text) =
        declaresSemantic m (before ++ [g]) := by
      simp [declaresSemantic, hs, hd]
    simp only [stampText, hsem, apply_ruleFor, Option.map_eq_none_iff, stampedAt_eq_none_iff]
    constructor
    · rintro ⟨hn, hnum, ha, hp⟩
      exact ⟨hd, hn, hnum, ha, hp⟩
    · rintro ⟨_, hn, hnum, ha, hp⟩
      exact ⟨hn, hnum, ha, hp⟩
  cases g with
  | other l => exact iff_of_false (by simp [stampGroup]) fun h => by simpa [Group.declares] using h.declares
  | single l => rw [← htext rfl, stampGroup, Option.map_eq_none_iff]; rfl
  | pair a b => rw [← htext rfl, stampGroup, Option.map_eq_none_iff]; rfl

/-! ### All logical lines -/

/-- **Stamping wants a part** where some logical line does, after those before it. -/
theorem stampGroups_eq_none_iff : ∀ {gs before : List Group} {s : State},
    s.semantic = declaresSemantic m before →
      (stampGroups m o s gs = none ↔
        ∃ done g, (∃ after, gs = done ++ g :: after) ∧ WantsPart m o (before ++ done) g)
  | [], before, s, _ => by simp [stampGroups]
  | g :: gs, before, s, hs => by
    have hg := stampGroup_eq_none_iff (o := o) hs g
    rw [stampGroups]
    constructor
    · intro h
      cases hout : stampGroup m o s g with
      | none => exact ⟨[], g, ⟨gs, rfl⟩, by rw [List.append_nil]; exact hg.1 hout⟩
      | some q =>
        obtain ⟨out, s'⟩ := q
        obtain ⟨_, hs', _⟩ := stampGroup_eq_some hs hout
        have hrest : stampGroups m o s' gs = none := by
          cases hr : stampGroups m o s' gs with
          | none => rfl
          | some q => simp [hout, hr] at h
        obtain ⟨done, g', ⟨after, rfl⟩, hw⟩ := (stampGroups_eq_none_iff hs').1 hrest
        exact ⟨g :: done, g', ⟨after, rfl⟩, by simpa using hw⟩
    · rintro ⟨done, g', ⟨after, he⟩, hw⟩
      cases hout : stampGroup m o s g with
      | none => rfl
      | some q =>
        obtain ⟨out, s'⟩ := q
        obtain ⟨_, hs', _⟩ := stampGroup_eq_some hs hout
        cases done with
        | nil =>
          obtain ⟨rfl, _⟩ := List.cons.inj he
          rw [List.append_nil] at hw
          simp [hg.2 hw] at hout
        | cons b done =>
          obtain ⟨rfl, rfl⟩ := List.cons.inj he
          have hrest : stampGroups m o s' (done ++ g' :: after) = none :=
            (stampGroups_eq_none_iff hs').2 ⟨done, g', ⟨after, rfl⟩, by simpa using hw⟩
          simp [hrest]

theorem isSome_lastReported {gs : List Group} {outs : List (List Line)}
    (h : outs.length = gs.length) : (lastReported m gs outs).isSome = gs.any (reports m) := by
  induction gs generalizing outs with
  | nil => simp [lastReported]
  | cons g gs ih =>
    cases outs with
    | nil => simp at h
    | cons out outs =>
      rw [lastReported_cons, Option.isSome_or, ih (by simpa using h), List.any_cons, Bool.or_comm]
      cases reports m g <;> rfl

/-- A version is found where some declaration is not of the second version. -/
theorem isSome_version {gs : List Group} {lines : List Line} {s : State}
    (h : stampGroups m o {} gs = some (lines, s)) : s.version.isSome = gs.any (reports m) := by
  have hs₀ : ({} : State).semantic = declaresSemantic m [] := rfl
  obtain ⟨outs, hlen, _, _, _, hver⟩ := stampGroups_eq_some hs₀ h
  rw [hver, Option.or_none, isSome_lastReported hlen]

/-- Whether a part is wanting among the logical lines `gs`, of which the last one may have been cut
short. -/
def LacksPart (p : Profile) (o : StampOptions) (cut : Bool) (gs : List Group) : Prop :=
  ∃ before g after, gs = before ++ g :: after ∧ Group.isWhole p.joinsNextLine cut g = true ∧
    WantsPart p.markers o before g

end Stamping

open Stamping

/-- A file is stamped if it is read to its end and a version is found on the way. -/
theorem stampSource_eq_ok_iff {p : Profile} {o : StampOptions} {path : Path} {source : Source}
    {r : Stamped} :
    stampSource p o path source = .ok r ↔
      ∃ lines state,
        stampGroups p.markers o {} (source.strict.groups p.declaresVersion p.joinsNextLine) =
          some (lines, state) ∧
        source.strict.failure = none ∧ state.version = some r.version ∧
        r.content = Line.join lines ∧ r.isSemantic = state.semantic ∧
        r.next = upcoming r.version o.isRelease ∧ r.path = path := by
  unfold stampSource
  constructor
  · intro h
    simp only at h
    split at h
    next => cases h
    next lines state hrun =>
      split at h
      next => cases h
      next => cases h
      next version hread hversion =>
        obtain rfl := Except.ok.inj h
        exact ⟨lines, state, hrun, hread, hversion, rfl, rfl, rfl, rfl⟩
  · rintro ⟨lines, state, hrun, hread, hversion, hcontent, hsemantic, hnext, hpath⟩
    obtain ⟨content, version, isSemantic, next, path'⟩ := r
    simp only at hversion hcontent hsemantic hnext hpath
    simp only [hrun, hread, hversion, hcontent, hsemantic, hnext, hpath]

/-- A file that was stamped is a text. -/
theorem Source.exists_eq_ofText {p : Profile} {o : StampOptions} {path : Path} {source : Source}
    {r : Stamped} (h : stampSource p o path source = .ok r) : ∃ content, source = ofText content := by
  obtain ⟨-, -, -, hread, -⟩ := stampSource_eq_ok_iff.1 h
  obtain ⟨bytes, failure⟩ := source
  cases failure with
  | some f =>
    have hfailed : (strict ⟨bytes, some f⟩).failure.isSome := strict_failure_isSome rfl
    rw [hread] at hfailed
    cases hfailed
  | none =>
    obtain ⟨content, rfl⟩ := (readsAsWhole bytes).accepted.1 hread
    exact ⟨content, rfl⟩

/-- A file that was stamped has a version to report. -/
theorem any_reports_of_stampSource {p : Profile} {o : StampOptions} {path : Path} {content : Text}
    {r : Stamped} (h : stampSource p o path (Source.ofText content) = .ok r) :
    (p.groups content).any (reports p.markers) = true := by
  obtain ⟨lines, state, hst, -, hversion, -⟩ := stampSource_ofText_eq_ok h
  rw [← isSome_version hst, hversion, Option.isSome_some]

/-- What stamping comes to: `gs` are the logical lines that the file would have if it ended where
the reading did, and `failure` is what ended the reading. -/
inductive StampOutcome (p : Profile) (o : StampOptions) (path : Path) (failure : Option ReadFault)
    (gs : List Group) : Except Failure Stamped → Prop
  | noVersionPart : LacksPart p o failure.isSome gs →
      StampOutcome p o path failure gs (.error (.settings (.noVersionPart path)))
  | unreadable {fault : ReadFault} : ¬ LacksPart p o failure.isSome gs → failure = some fault →
      StampOutcome p o path failure gs (.error (.system fault))
  | noVersion : ¬ LacksPart p o failure.isSome gs → failure = none →
      (∀ g ∈ gs, g.declares = true → p.markers.isFileVersion g.text = true) →
      StampOutcome p o path failure gs (.error (.project (.noVersion path)))
  | stamped (r : Stamped) : ¬ LacksPart p o failure.isSome gs → failure = none →
      (∃ g ∈ gs, g.declares = true ∧ p.markers.isFileVersion g.text = false) →
      StampOutcome p o path failure gs (.ok r)

section Outcome

variable {p : Profile} {o : StampOptions} {path : Path} {s : Source} {r : Reading} {gs : List Group}

theorem lacksPart_iff (hgs : Grouped p.declaresVersion p.joinsNextLine r.lines gs) :
    LacksPart p o r.failure.isSome gs ↔
      stampGroups p.markers o {} (r.groups p.declaresVersion p.joinsNextLine) = none := by
  have hgroups : r.groups p.declaresVersion p.joinsNextLine =
      gs.filter (Group.isWhole p.joinsNextLine r.failure.isSome) := by
    rw [Reading.groups, Group.sort_eq_filter, Group.sort_of_grouped hgs]
  have hs₀ : ({} : State).semantic = declaresSemantic p.markers [] := rfl
  rw [hgroups, stampGroups_eq_none_iff hs₀]
  simp only [hgs.filter_isWhole_eq_iff, List.nil_append, LacksPart]
  constructor
  · rintro ⟨before, g, after, he, hg, hw⟩
    exact ⟨before, g, ⟨hg, after, he⟩, hw⟩
  · rintro ⟨before, g, ⟨hg, after, he⟩, hw⟩
    exact ⟨before, g, after, he, hg, hw⟩

/-- **What comes of stamping can be read off the strict reading** and its logical lines. -/
theorem StrictReading.outcome (hr : StrictReading s.fault s.lines r)
    (hgs : Grouped p.declaresVersion p.joinsNextLine r.lines gs) :
    StampOutcome p o path r.failure gs (stampSource p o path s) := by
  have hlacks := lacksPart_iff (o := o) hgs
  simp only [stampSource, Source.strict_eq_iff.2 hr]
  cases hst : stampGroups p.markers o {} (r.groups p.declaresVersion p.joinsNextLine) with
  | none => exact .noVersionPart (hlacks.2 hst)
  | some q =>
    obtain ⟨lines, state⟩ := q
    have hnot : ¬ LacksPart p o r.failure.isSome gs := fun h => by simp [hlacks.1 h] at hst
    cases hf : r.failure with
    | some fault => exact .unreadable (hf ▸ hnot) rfl
    | none =>
      have hall : r.groups p.declaresVersion p.joinsNextLine = gs := by
        rw [Reading.groups, hf]
        exact Group.sort_of_grouped hgs
      have hversion := isSome_version (hall ▸ hst)
      cases hv : state.version with
      | none =>
        rw [hv, Option.isSome_none, eq_comm, List.any_eq_false] at hversion
        simp only [hv]
        exact .noVersion (hf ▸ hnot) rfl fun g hg hd => by simpa [reports, hd] using hversion g hg
      | some version =>
        rw [hv, Option.isSome_some, eq_comm, List.any_eq_true] at hversion
        obtain ⟨g, hg, hrep⟩ := hversion
        simp only [hv]
        exact .stamped _ (hf ▸ hnot) rfl ⟨g, hg, by simpa [reports] using hrep⟩

/-- **Which result stamping has is decided by the file.** -/
theorem stampSource_outcome (l : Language) (o : StampOptions) (path : Path) (bs : Bytes) :
    ∃ r gs, StrictReading none (PhysicalLine.split bs) r ∧
      Grouped l.profile.declaresVersion l.profile.joinsNextLine r.lines gs ∧
      StampOutcome l.profile o path r.failure gs (stampSource l.profile o path ⟨bs, none⟩) := by
  have hr : StrictReading none (PhysicalLine.split bs) (Source.strict ⟨bs, none⟩) :=
    (Source.strict_eq_iff (s := ⟨bs, none⟩)).1 rfl
  obtain ⟨gs, hgs⟩ : ∃ gs, Grouped l.profile.declaresVersion l.profile.joinsNextLine
      (Source.strict ⟨bs, none⟩).lines gs := ⟨_, Group.grouped_sort _⟩
  exact ⟨_, gs, hr, hgs, StrictReading.outcome (s := ⟨bs, none⟩) hr hgs⟩

/-- A number that is wanting is not missed where the rest of its declaration cannot be read. -/
example :
    stampSource Language.cobol.profile { now := ⟨2019, 1, 1, 12, 0⟩ } "info"
        ⟨Utf8.encode "CUSTOM-ATTRIBUTE CA-ASSEMBLYVERSION \"*\"\n" ++ [0xFF], none⟩ =
      .error (.system (.notText 2 ⟨0, some 1⟩)) := by
  decide +kernel

end Outcome
end Nameplate
