/-
# Stamping, one logical line at a time

Stamping goes through a file with a state: whether a semantic version has been
declared. Where a line stands tells the same without a state, and the text it
becomes is a function of the logical lines up to it (`stampedAt`): with a new
development version the marker on the line decides; otherwise the numeric rule
holds on a line with the second version and as long as no declaration so far,
this one included, has the semantic marker.

So a stamped file is the old one, logical line by logical line: the endings
stay, lines that declare no version stay, and the texts of a declaration make
up the stamped text (`StampedAs`, `stampSource_pointwise`). The version
reported is the value of the last declaration without the second version.

Key definitions: `Stamping.stampedAt`, `Stamping.StampedAs`,
`Stamping.StampedInto`, `Stamping.lastReported`, `Stamping.IsLastReporting`,
`Stamping.lastValue`.
Key theorem: `stampSource_pointwise`.
-/
import Nameplate.Proofs.Line.Grouping
import Nameplate.Proofs.Version.Rule

namespace Nameplate
namespace Stamping

/-- Whether a declaration among the logical lines has the semantic marker. -/
def declaresSemantic (m : Markers) (gs : List Group) : Bool :=
  gs.any fun g => g.declares && Text.contains m.semanticVersion g.text

/-- The text of a declaration after stamping; `upTo` are the logical lines up to it. -/
def stampedAt (m : Markers) (o : StampOptions) (upTo : List Group) (line : Text) : Option Text :=
  match o.newDevelopment with
  | some v =>
    if Text.contains m.semanticVersion line then some (Template.newSemantic v line)
    else some (Template.newNumeric v line)
  | none =>
    if m.isFileVersion line || !declaresSemantic m upTo then Template.numeric o.versionPart line
    else if o.isRelease then some (Template.release o.releaseVersion line)
    else some (Template.development o.now line)

/-- What stands in the stamped file for the logical line `g`. -/
structure StampedAs (m : Markers) (o : StampOptions) (upTo : List Group) (g : Group)
    (out : List Line) : Prop where
  endings : out.map Line.ending = g.lines.map Line.ending
  kept : g.declares = false → out = g.lines
  stamped : g.declares = true → stampedAt m o upTo g.text = some (out.flatMap Line.text)

/-- Whether a logical line has a say in the version that is reported. -/
def reports (m : Markers) (g : Group) : Bool := g.declares && !m.isFileVersion g.text

/-- The value of the last stamped line that has a say. -/
def lastReported (m : Markers) (gs : List Group) (outs : List (List Line)) : Option Text :=
  ((gs.zip outs).filter fun p => reports m p.1).getLast?.map fun p =>
    Text.quoted (p.2.flatMap Line.text)

theorem lastReported_cons (m : Markers) (g : Group) (gs : List Group) (out : List Line)
    (outs : List (List Line)) :
    lastReported m (g :: gs) (out :: outs) =
      (lastReported m gs outs).or
        (if reports m g then some (Text.quoted (out.flatMap Line.text)) else none) := by
  simp only [lastReported, List.zip_cons_cons, List.filter_cons]
  by_cases h : reports m g = true
  · rw [if_pos h, if_pos h, List.getLast?_cons]
    cases ((gs.zip outs).filter fun p => reports m p.1).getLast? <;> rfl
  · rw [if_neg h, if_neg h, Option.or_none]

/-- A logical line has a say, and none of the lines after it does. -/
structure IsLastReporting (m : Markers) (g : Group) (after : List Group) : Prop where
  reports : reports m g = true
  rest : ∀ g' ∈ after, Stamping.reports m g' = false

theorem declares_of_reports {m : Markers} {g : Group} (h : reports m g = true) :
    g.declares = true :=
  (Bool.and_eq_true_iff.1 h).1

theorem IsLastReporting.declares {m : Markers} {g : Group} {after : List Group}
    (h : IsLastReporting m g after) : g.declares = true :=
  declares_of_reports h.reports

theorem IsLastReporting.isFileVersion_eq {m : Markers} {g : Group} {after : List Group}
    (h : IsLastReporting m g after) : m.isFileVersion g.text = false := by
  simpa using (Bool.and_eq_true_iff.1 h.reports).2

/-- The version that is reported is the value of the last line that has a say. -/
theorem exists_of_lastReported {m : Markers} {gs : List Group} {outs : List (List Line)}
    {version : Text} (hlen : outs.length = gs.length) (h : lastReported m gs outs = some version) :
    ∃ (before : List Group) (g : Group) (after : List Group) (out : List Line),
      gs = before ++ g :: after ∧ outs[before.length]? = some out ∧ IsLastReporting m g after ∧
      version = Text.quoted (out.flatMap Line.text) := by
  obtain ⟨⟨g, out⟩, hlast, rfl⟩ := Option.map_eq_some_iff.1 h
  rw [List.getLast?_eq_head?_reverse, ← List.filter_reverse, List.head?_filter] at hlast
  obtain ⟨hreports, after, before, hsplit, hrest⟩ := List.find?_eq_some_iff_append.1 hlast
  have hzip : gs.zip outs = before.reverse ++ (g, out) :: after.reverse := by
    rw [← List.reverse_reverse (gs.zip outs), hsplit]
    simp
  have hgs : gs = before.reverse.map Prod.fst ++ g :: after.reverse.map Prod.fst := by
    have hfst : (gs.zip outs).map Prod.fst = gs := List.map_fst_zip (Nat.le_of_eq hlen.symm)
    rw [← hfst, hzip, List.map_append, List.map_cons]
  have hout : (gs.zip outs)[before.length]? = some (g, out) := by
    rw [hzip, List.getElem?_append_right (by simp)]
    simp
  refine ⟨_, g, _, out, hgs, ?_, ⟨hreports, ?_⟩, rfl⟩
  · simpa using (List.getElem?_zip_eq_some.1 hout).2
  · intro g' hg'
    obtain ⟨pair, hpair, rfl⟩ := List.mem_map.1 hg'
    simpa using hrest pair (List.mem_reverse.1 hpair)

/-- The value of the last logical line that has a say, as it stands in a file. -/
def lastValue (m : Markers) (gs : List Group) : Option Text :=
  (gs.filter (reports m)).getLast?.map fun g => Text.quoted g.text

theorem lastValue_cons (m : Markers) (g : Group) (gs : List Group) :
    lastValue m (g :: gs) =
      (lastValue m gs).or (if reports m g then some (Text.quoted g.text) else none) := by
  simp only [lastValue, List.filter_cons]
  by_cases h : reports m g = true
  · rw [if_pos h, if_pos h, List.getLast?_cons]
    cases (gs.filter (reports m)).getLast? <;> rfl
  · rw [if_neg h, if_neg h, Option.or_none]

/-- What the declarations among `gs` are stamped as, one by one, is what stands at their places
among `gs'`; `done` are the logical lines before. -/
def StampedInto (m : Markers) (o : StampOptions) (done gs gs' : List Group) : Prop :=
  ∀ i g g', gs[i]? = some g → gs'[i]? = some g' → g.declares = true →
    stampedAt m o (done ++ gs.take (i + 1)) g.text = some g'.text

theorem stampedInto_cons_iff {m : Markers} {o : StampOptions} {done gs gs' : List Group}
    {g g' : Group} :
    StampedInto m o done (g :: gs) (g' :: gs') ↔
      (g.declares = true → stampedAt m o (done ++ [g]) g.text = some g'.text) ∧
        StampedInto m o (done ++ [g]) gs gs' := by
  constructor
  · intro h
    refine ⟨fun hd => by simpa using h 0 g g' rfl rfl hd, fun i x x' hi hi' hd => ?_⟩
    simpa using h (i + 1) x x' (by simpa using hi) (by simpa using hi') hd
  · rintro ⟨hg, h⟩ i x x' hi hi' hd
    cases i with
    | zero =>
      obtain rfl : g = x := by simpa using hi
      obtain rfl : g' = x' := by simpa using hi'
      simpa using hg hd
    | succ i => simpa using h i x x' (by simpa using hi) (by simpa using hi') hd

/-! ### One logical line -/

/-- The rule that the state selects is the one that the logical lines so far select. -/
theorem apply_ruleFor (m : Markers) (o : StampOptions) (upTo : List Group) (line : Text) :
    (ruleFor m o (declaresSemantic m upTo) line).apply o line = stampedAt m o upTo line := by
  unfold ruleFor stampedAt
  cases o.newDevelopment with
  | some v =>
    simp only
    split <;> rfl
  | none =>
    simp only
    split
    · rfl
    · split <;> rfl

/-- What a declaration is stamped as is its text with the value that its rule makes. -/
theorem StampedAs.exists_value {m : Markers} {o : StampOptions} {upTo : List Group} {g : Group}
    {out : List Line} (h : StampedAs m o upTo g out) (hd : g.declares = true) :
    ∃ rule v, Selects m o (declaresSemantic m upTo) g.text rule ∧
      rule.value? o (Text.quotedOrAll g.text) = some v ∧
      out.flatMap Line.text = Text.mapQuoted (fun _ => v) g.text := by
  have hstamped := h.stamped hd
  rw [← apply_ruleFor, Rule.apply_eq] at hstamped
  obtain ⟨v, hv, htext⟩ := Option.map_eq_some_iff.1 hstamped
  exact ⟨_, v, selects_ruleFor m o _ g.text, hv, htext.symm⟩

/-- The text and the state after a declaration. -/
theorem stampText_eq_some {m : Markers} {o : StampOptions} {s s' : State} {g : Group}
    {done : List Group} {stamped : Text} (hd : g.declares = true)
    (hs : s.semantic = declaresSemantic m done) (h : stampText m o s g.text = some (stamped, s')) :
    stampedAt m o (done ++ [g]) g.text = some stamped ∧
      s'.semantic = declaresSemantic m (done ++ [g]) ∧
      s'.version = if reports m g then some (Text.quoted stamped) else s.version := by
  have hsem : (s.semantic || Text.contains m.semanticVersion g.text) =
      declaresSemantic m (done ++ [g]) := by
    simp [declaresSemantic, hs, hd]
  simp only [stampText, hsem, apply_ruleFor] at h
  obtain ⟨t, ht, he⟩ := Option.map_eq_some_iff.1 h
  simp only [Prod.mk.injEq] at he
  obtain ⟨rfl, rfl⟩ := he
  refine ⟨ht, hsem, ?_⟩
  cases hf : m.isFileVersion g.text <;> simp [State.advance, reports, hd, hf]

theorem stampGroup_eq_some {m : Markers} {o : StampOptions} {s s' : State} {g : Group}
    {done : List Group} {out : List Line} (hs : s.semantic = declaresSemantic m done)
    (h : stampGroup m o s g = some (out, s')) :
    StampedAs m o (done ++ [g]) g out ∧ s'.semantic = declaresSemantic m (done ++ [g]) ∧
      s'.version =
        if reports m g then some (Text.quoted (out.flatMap Line.text)) else s.version := by
  cases g with
  | other l =>
    simp only [stampGroup, Option.some.injEq, Prod.mk.injEq] at h
    obtain ⟨rfl, rfl⟩ := h
    refine ⟨⟨rfl, fun _ => rfl, fun hd => by simp [Group.declares] at hd⟩, ?_, ?_⟩
    · simp [declaresSemantic, Group.declares, hs]
    · simp [reports, Group.declares]
  | single l =>
    obtain ⟨⟨stamped, t⟩, ht, he⟩ := Option.map_eq_some_iff.1 h
    simp only [Prod.mk.injEq] at he
    obtain ⟨rfl, rfl⟩ := he
    obtain ⟨h1, h2, h3⟩ := stampText_eq_some (g := .single l) rfl hs ht
    exact ⟨⟨rfl, fun hd => by simp [Group.declares] at hd, fun _ => by simpa using h1⟩, h2,
      by simpa using h3⟩
  | pair a b =>
    obtain ⟨⟨stamped, t⟩, ht, he⟩ := Option.map_eq_some_iff.1 h
    simp only [Prod.mk.injEq] at he
    obtain ⟨rfl, rfl⟩ := he
    obtain ⟨h1, h2, h3⟩ := stampText_eq_some (g := .pair a b) rfl hs ht
    have hcut := cut_append (a.text ++ b.text) stamped (Text.byteLength a.text)
    exact ⟨⟨rfl, fun hd => by simp [Group.declares] at hd, fun _ => by simpa [hcut] using h1⟩, h2,
      by simpa [hcut] using h3⟩

theorem stampGroup_other {m : Markers} {o : StampOptions} {opens : Text → Bool} {l : Line} (h : opens l.text = false)
    (s : State) : stampGroup m o s (Group.ofLine opens l) = some ([l], s) := by
  simp [Group.ofLine, h, stampGroup]

theorem stampGroup_single {m : Markers} {o : StampOptions} {opens : Text → Bool} {l : Line} (h : opens l.text = true)
    (s : State) :
    stampGroup m o s (Group.ofLine opens l) =
      (stampText m o s l.text).map fun (stamped, s') => ([{ l with text := stamped }], s') := by
  simp [Group.ofLine, h, stampGroup]

/-! ### All logical lines -/

/-- The logical lines after the lines `done`, one by one, and what the last state knows. -/
theorem stampGroups_eq_some {m : Markers} {o : StampOptions} :
    ∀ {gs done : List Group} {s s' : State} {lines : List Line},
      s.semantic = declaresSemantic m done → stampGroups m o s gs = some (lines, s') →
      ∃ outs : List (List Line), outs.length = gs.length ∧ lines = outs.flatten ∧
        (∀ i g, gs[i]? = some g →
          ∃ out, outs[i]? = some out ∧ StampedAs m o (done ++ gs.take (i + 1)) g out) ∧
        s'.semantic = declaresSemantic m (done ++ gs) ∧
        s'.version = (lastReported m gs outs).or s.version
  | [], done, s, s', lines, hs, h => by
    simp only [stampGroups, Option.some.injEq, Prod.mk.injEq] at h
    obtain ⟨rfl, rfl⟩ := h
    exact ⟨[], rfl, rfl, by simp, by simpa using hs, rfl⟩
  | g :: gs, done, s, s', lines, hs, h => by
    rw [stampGroups] at h
    obtain ⟨⟨out, s₁⟩, hg, h⟩ := Option.bind_eq_some_iff.1 h
    obtain ⟨⟨rest, s₂⟩, hgs, h⟩ := Option.bind_eq_some_iff.1 h
    simp only [Option.some.injEq, Prod.mk.injEq] at h
    obtain ⟨rfl, rfl⟩ := h
    obtain ⟨hout, hsem, hver⟩ := stampGroup_eq_some hs hg
    obtain ⟨outs, hlen, rfl, hall, hsem', hver'⟩ := stampGroups_eq_some hsem hgs
    refine ⟨out :: outs, by simp [hlen], rfl, ?_, by simpa using hsem', ?_⟩
    · intro i g' hi
      cases i with
      | zero =>
        obtain rfl : g = g' := by simpa using hi
        exact ⟨out, rfl, by simpa using hout⟩
      | succ i =>
        obtain ⟨out', ho, hst⟩ := hall i g' (by simpa using hi)
        exact ⟨out', by simpa using ho, by simpa using hst⟩
    · rw [hver', hver, lastReported_cons, Option.or_assoc]
      split <;> rfl

end Stamping

open Stamping

/-- Stamping a text: its logical lines are stamped, and a version must be among them. -/
theorem stampSource_ofText (p : Profile) (o : StampOptions) (path : Path) (content : Text) :
    stampSource p o path (Source.ofText content) =
      match stampGroups p.markers o {} (p.groups content) with
      | none => .error (.settings (.noVersionPart path))
      | some (lines, state) =>
        match state.version with
        | none => .error (.project (.noVersion path))
        | some version =>
          .ok {
            content := Line.join lines
            version
            isSemantic := state.semantic
            next := upcoming version o.isRelease
            path } := by
  have hgroups : Reading.groups p.declaresVersion p.joinsNextLine ⟨Line.split content, none⟩ =
      p.groups content := rfl
  unfold stampSource
  rw [Source.strict_ofText]
  simp only [hgroups]
  cases stampGroups p.markers o {} (p.groups content) with
  | none => rfl
  | some q => cases hv : q.2.version <;> simp [hv]

theorem stampSource_ofText_eq_ok {p : Profile} {o : StampOptions} {path : Path} {content : Text}
    {r : Stamped} (h : stampSource p o path (Source.ofText content) = .ok r) :
    ∃ lines state, stampGroups p.markers o {} (p.groups content) = some (lines, state) ∧
      r.content = Line.join lines ∧ state.version = some r.version ∧
      r.isSemantic = state.semantic ∧ r.next = upcoming r.version o.isRelease ∧ r.path = path := by
  rw [stampSource_ofText] at h
  cases hg : stampGroups p.markers o {} (p.groups content) with
  | none => simp [hg] at h
  | some q =>
    obtain ⟨lines, state⟩ := q
    simp only [hg] at h
    cases hv : state.version with
    | none => simp [hv] at h
    | some version =>
      simp only [hv, Except.ok.injEq] at h
      subst h
      exact ⟨lines, state, rfl, rfl, hv, rfl, rfl, rfl⟩

/-- What a stamped file is: `gs` are the logical lines of the old one, and `outs` what became of
each. -/
structure Stamped.Pointwise (p : Profile) (o : StampOptions) (path : Path) (content : Text)
    (gs : List Group) (outs : List (List Line)) (r : Stamped) : Prop where
  grouped : Grouped p.declaresVersion p.joinsNextLine (Line.split content) gs
  length_eq : outs.length = gs.length
  content_eq : r.content = Line.join outs.flatten
  stampedAs : ∀ i g, gs[i]? = some g →
    ∃ out, outs[i]? = some out ∧ StampedAs p.markers o (gs.take (i + 1)) g out
  isSemantic_eq : r.isSemantic = declaresSemantic p.markers gs
  version_eq : lastReported p.markers gs outs = some r.version
  next_eq : r.next = upcoming r.version o.isRelease
  path_eq : r.path = path

namespace Stamped.Pointwise

variable {p : Profile} {o : StampOptions} {path : Path} {content : Text} {gs : List Group}
  {outs : List (List Line)} {r : Stamped}

/-- The lines at the place of a logical line are what it was stamped as. -/
theorem stampedAs_at (h : r.Pointwise p o path content gs outs) {i : Nat} {g : Group}
    {out : List Line} (hg : gs[i]? = some g) (hout : outs[i]? = some out) :
    StampedAs p.markers o (gs.take (i + 1)) g out := by
  obtain ⟨out', hout', hstamped⟩ := h.stampedAs i g hg
  obtain rfl := Option.some.inj (hout.symm.trans hout')
  exact hstamped

/-- The version that is reported comes from the last line that has a say. -/
theorem exists_reported (h : r.Pointwise p o path content gs outs) :
    ∃ (before : List Group) (g : Group) (after : List Group) (out : List Line),
      gs = before ++ g :: after ∧ IsLastReporting p.markers g after ∧
      StampedAs p.markers o (before ++ [g]) g out ∧
      r.version = Text.quoted (out.flatMap Line.text) := by
  obtain ⟨before, g, after, out, rfl, hout, hlast, hversion⟩ :=
    exists_of_lastReported h.length_eq h.version_eq
  have hg : (before ++ g :: after)[before.length]? = some g := by simp
  have hupTo : (before ++ g :: after).take (before.length + 1) = before ++ [g] := by
    rw [List.take_length_add_append, List.take_succ_cons, List.take_zero]
  have hstamped := h.stampedAs_at hg hout
  rw [hupTo] at hstamped
  exact ⟨before, g, after, out, rfl, hlast, hstamped, hversion⟩

end Stamped.Pointwise

/-- What became of the logical lines of a file that was stamped. -/
theorem Stamped.exists_pointwise {p : Profile} {o : StampOptions} {path : Path} {content : Text}
    {r : Stamped} (h : stampSource p o path (Source.ofText content) = .ok r) :
    ∃ outs, r.Pointwise p o path content (p.groups content) outs := by
  obtain ⟨lines, state, hg, hc, hv, hsem, hnext, hpath⟩ := stampSource_ofText_eq_ok h
  have hs₀ : ({} : State).semantic = declaresSemantic p.markers [] := rfl
  obtain ⟨outs, hlen, rfl, hall, hs, hver⟩ := stampGroups_eq_some hs₀ hg
  refine ⟨outs, p.grouped content, hlen, hc, hall, ?_, ?_, hnext, hpath⟩
  · rw [hsem, hs, List.nil_append]
  · rw [← hv, hver, Option.or_none]

/-- **A stamped file is the old one, logical line by logical line**, each stamped as its place among
the others says, whatever the state of the pass was. -/
theorem stampSource_pointwise (l : Language) (o : StampOptions) (path : Path) (content : Text)
    (r : Stamped) (h : stampSource l.profile o path (Source.ofText content) = .ok r) :
    ∃ gs outs, r.Pointwise l.profile o path content gs outs := by
  obtain ⟨outs, hpw⟩ := Stamped.exists_pointwise h
  exact ⟨l.profile.groups content, outs, hpw⟩

/-- A pair whose value straddles its lines is stamped as one text and cut after as many bytes as
before; its second line, though it names a marker, opens nothing. -/
theorem stampSource_pointwise_straddling :
    ∃ r : Stamped,
      stampSource Language.cobol.profile { versionPart := some ['7'], now := ⟨2019, 1, 1, 12, 0⟩ }
        "info" (Source.ofText
          "CUSTOM-ATTRIBUTE CA-ASSEMBLYVERSION \"1.\n*\" CUSTOM-ATTRIBUTE CA-ASSEMBLYVERSION\n") =
        .ok r ∧
      r.content =
        "CUSTOM-ATTRIBUTE CA-ASSEMBLYVERSION \"1.\n7.0.0\" CUSTOM-ATTRIBUTE CA-ASSEMBLYVERSION\n".toList ∧
      ∃ gs outs, r.Pointwise Language.cobol.profile
        { versionPart := some ['7'], now := ⟨2019, 1, 1, 12, 0⟩ } "info"
        "CUSTOM-ATTRIBUTE CA-ASSEMBLYVERSION \"1.\n*\" CUSTOM-ATTRIBUTE CA-ASSEMBLYVERSION\n"
        gs outs := by
  have h : stampSource Language.cobol.profile
      { versionPart := some ['7'], now := ⟨2019, 1, 1, 12, 0⟩ } "info" (Source.ofText
        "CUSTOM-ATTRIBUTE CA-ASSEMBLYVERSION \"1.\n*\" CUSTOM-ATTRIBUTE CA-ASSEMBLYVERSION\n") =
      .ok {
        content :=
          "CUSTOM-ATTRIBUTE CA-ASSEMBLYVERSION \"1.\n7.0.0\" CUSTOM-ATTRIBUTE CA-ASSEMBLYVERSION\n"
        version := "1.7.0.0"
        isSemantic := false
        next := ⟨"1.7.0.0", "1.7.0.0-d"⟩
        path := "info" } := by
    decide +kernel
  exact ⟨_, h, rfl, stampSource_pointwise .cobol _ _ _ _ h⟩

end Nameplate
