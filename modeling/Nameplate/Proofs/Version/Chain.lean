/-
# Stamping again and again

A file is well-formed when its carriage returns end lines, every version line
has one quoted value that is a version, and one of them at least has a say in
the version that is reported (`Profile.WellFormed`). Stamping such a file with
plain options succeeds and leaves a well-formed file, so it can be stamped
again, any number of times (`stampChain_wellFormed`).

The files along such a chain have the same logical lines (`Corresponds`): a
line without a version is copied, and of a version line only the value changes.
The lines of a pair are cut anew each time, and the second one may be left with
nothing; at the end of a file it is then gone, and the declaration stands on a
line of its own from there on.

Key definitions: `Profile.WellFormed`, `Corresponds`, `stampChain`.
Key theorems: `stampSource_stampedInto`, `stampChain_wellFormed`.
-/
import Mathlib.Data.List.Forall2
import Nameplate.Proofs.Line.Returns
import Nameplate.Proofs.Version.Cut
import Nameplate.Proofs.Version.Pointwise

namespace Nameplate

open Template

/-! ### Well-formed files and what they have in common -/

/-- A file that can be stamped again and again. -/
structure Profile.WellFormed (p : Profile) (content : Text) : Prop where
  returns : Text.ReturnsEndLines content
  reported : ∃ g ∈ p.groups content, Stamping.reports p.markers g = true
  values : ∀ g ∈ p.groups content, g.declares = true → ∃ q : Quoted, q.IsVersion ∧ g.text = q.line

/-- The endings of a logical line as they are written. -/
def Group.endings (g : Group) : Text := g.lines.flatMap fun l => l.ending.text

/-- A logical line and the same line after stampings. -/
structure Corresponds (m : Markers) (g g' : Group) : Prop where
  declares_eq : g'.declares = g.declares
  semantic_eq : Text.contains m.semanticVersion g'.text = Text.contains m.semanticVersion g.text
  fileVersion_eq : m.isFileVersion g'.text = m.isFileVersion g.text
  endings_eq : g'.endings = g.endings
  kept : g.declares = false → g' = g
  around : g.declares = true → ∃ (q : Quoted) (v : Text), q.IsVersion ∧ IsTemplate v ∧
    g.text = q.line ∧ g'.text = Quoted.line { q with value := v }

namespace Corresponds

theorem other (m : Markers) (l : Line) : Corresponds m (.other l) (.other l) :=
  ⟨rfl, rfl, rfl, rfl, fun _ => rfl, fun h => by simp [Group.declares] at h⟩

theorem trans {m : Markers} {g₁ g₂ g₃ : Group} (h : Corresponds m g₁ g₂)
    (h' : Corresponds m g₂ g₃) : Corresponds m g₁ g₃ := by
  refine ⟨h'.declares_eq.trans h.declares_eq, h'.semantic_eq.trans h.semantic_eq,
    h'.fileVersion_eq.trans h.fileVersion_eq, h'.endings_eq.trans h.endings_eq, fun hd => ?_,
    fun hd => ?_⟩
  · rw [h'.kept (h.declares_eq.trans hd), h.kept hd]
  · obtain ⟨q, v, hq, hv, ht, ht'⟩ := h.around hd
    obtain ⟨q', v', hq', hv', hu, hu'⟩ := h'.around (h.declares_eq.trans hd)
    obtain rfl := hq'.line_injective (hq.with_value hv) (hu.symm.trans ht')
    exact ⟨q, v', hq, hv', ht, hu'⟩

/-- The same version line with another value. -/
theorem of_line {p : Profile} (hp : p.IsSteady) {q : Quoted} (hq : q.IsVersion) {v : Text}
    (hv : IsTemplate v) {g g' : Group} (hd : g.declares = true) (hd' : g'.declares = true)
    (ht : g.text = q.line) (ht' : g'.text = Quoted.line { q with value := v })
    (he : g'.endings = g.endings) : Corresponds p.markers g g' := by
  refine ⟨hd'.trans hd.symm, ?_, ?_, he, fun h => by simp [hd] at h,
    fun _ => ⟨q, v, hq, hv, ht, ht'⟩⟩
  · rw [ht, ht', hp.semantic_line hq hv]
  · rw [ht, ht', hp.isFileVersion_line hq hv]

end Corresponds

/-! ### One stamping -/

theorem Grouped.eq_nil_iff {opens : Text → Bool} {joins : Bool} {ls : List Line} {gs : List Group}
    (h : Grouped opens joins ls gs) : ls = [] ↔ gs = [] := by
  cases h <;> simp

/-- What was written for the logical lines `gs`, when it is read again: the lines `ls`, which are
the logical lines `gs'`. -/
structure ReadBack (p : Profile) (gs : List Group) (written ls : List Line) (gs' : List Group) :
    Prop where
  join_eq : Line.join ls = Line.join written
  tidy : Line.Tidy ls
  grouped : Grouped p.declaresVersion p.joinsNextLine ls gs'
  corresponds : List.Forall₂ (Corresponds p.markers) gs gs'

namespace ReadBack

variable {p : Profile} {gs gs' : List Group} {written ls : List Line}

theorem nil : ReadBack p [] [] [] [] := ⟨rfl, ⟨trivial, by simp⟩, .nil, .nil⟩

theorem lines_eq_nil (h : ReadBack p gs written ls gs') (hgs : gs = []) : ls = [] := by
  subst hgs
  exact h.grouped.eq_nil_iff.2 (List.forall₂_nil_left_iff.1 h.corresponds)

/-- One more line before the others, as a logical line of its own. -/
theorem cons_other (h : ReadBack p gs written ls gs') {l : Line}
    (hl : p.declaresVersion l.text = false) (ht : Line.Tidy (l :: ls)) :
    ReadBack p (.other l :: gs) (l :: written) (l :: ls) (.other l :: gs') :=
  ⟨by simp [h.join_eq], ht, .other hl h.grouped, .cons (.other p.markers l) h.corresponds⟩

variable {q : Quoted} {v : Text}

/-- A version line on a line of its own. -/
theorem cons_single (hp : p.IsSteady) (h : ReadBack p gs written ls gs') (hq : q.IsVersion)
    (hv : IsTemplate v) {l : Line} (hl : l.text = q.line) (hd : p.declaresVersion l.text = true)
    (hn : '\n' ∉ l.text) (hr : '\r' ∉ l.text) (he : l.ending = .none → gs = [])
    (hj : p.joinsNextLine = true → gs = []) :
    ∃ ls' g', g'.text = Quoted.line { q with value := v } ∧ ReadBack p (.single l :: gs)
      ({ l with text := Quoted.line { q with value := v } } :: written) ls' (g' :: gs') := by
  rw [hl] at hd hn hr
  have htidy : Line.Tidy ({ l with text := Quoted.line { q with value := v } } :: ls) := by
    refine Line.tidy_cons.2 ⟨⟨?_, ?_⟩, fun hend => ⟨?_, h.lines_eq_nil (he hend)⟩, h.tidy⟩
    · exact Quoted.notMem_line hn hv.lineFeed_notMem
    · exact Quoted.notMem_line hr hv.return_notMem
    · simp [Quoted.line]
  have hopens := hp.declaresVersion_line hq hv hd
  have hcor : Corresponds p.markers (.single l)
      (.single { l with text := Quoted.line { q with value := v } }) :=
    .of_line hp hq hv rfl rfl hl rfl rfl
  exact ⟨_, _, rfl, by simp [h.join_eq], htidy,
    .single hopens (fun hjoins => h.lines_eq_nil (hj hjoins)) h.grouped, .cons hcor h.corresponds⟩

/-- A version line on two lines. The second one is gone when nothing is left of it and it has no
ending to keep. -/
theorem cons_pair (hp : p.IsSteady) (h : ReadBack p gs written ls gs') (hq : q.IsVersion)
    (hv : IsTemplate v) {a b : Line} (hab : a.text ++ b.text = q.line)
    (hd : p.declaresVersion a.text = true) (hj : p.joinsNextLine = true)
    (hn : '\n' ∉ q.line) (hr : '\r' ∉ q.line) (ha : a.ending ≠ .none)
    (hb : b.ending = .none → gs = []) {x y : Text}
    (hxy : Stamping.cut q.line (Quoted.line { q with value := v }) (Text.byteLength a.text) =
      (x, y)) :
    ∃ ls' g', g'.text = Quoted.line { q with value := v } ∧ ReadBack p (.pair a b :: gs)
      ({ a with text := x } :: { b with text := y } :: written) ls' (g' :: gs') := by
  have happend : x ++ y = Quoted.line { q with value := v } := by
    have hcut := Stamping.cut_append q.line (Quoted.line { q with value := v })
      (Text.byteLength a.text)
    rwa [hxy] at hcut
  have hopens : p.declaresVersion x = true := by
    have hcut := hp.declaresVersion_cut hj hq hv hab hd
    rwa [hxy] at hcut
  have hfree (c : Char) (hc : c ∉ q.line) (hcv : c ∉ v) : c ∉ x ∧ c ∉ y := by
    have hline := Quoted.notMem_line hc hcv
    rw [← happend, List.mem_append, not_or] at hline
    exact hline
  obtain ⟨hnx, hny⟩ := hfree '\n' hn hv.lineFeed_notMem
  obtain ⟨hrx, hry⟩ := hfree '\r' hr hv.return_notMem
  by_cases hgone : y = [] ∧ b.ending = .none
  · obtain ⟨rfl, hend⟩ := hgone
    obtain rfl := h.lines_eq_nil (hb hend)
    have hx : x = Quoted.line { q with value := v } := by simpa using happend
    have hcor : Corresponds p.markers (.pair a b) (.single { a with text := x }) := by
      refine .of_line hp hq hv rfl rfl hab hx ?_
      simp [Group.endings, Group.lines, hend, Ending.text]
    have htidy : Line.Tidy [{ a with text := x }] :=
      Line.tidy_cons.2 ⟨⟨hnx, hrx⟩, fun he => absurd he ha, h.tidy⟩
    refine ⟨[{ a with text := x }], .single { a with text := x }, hx, ?_, htidy,
      .single hopens (fun _ => rfl) h.grouped, .cons hcor h.corresponds⟩
    rw [Line.join_cons, Line.join_cons, Line.join_cons, h.join_eq]
    simp [Line.whole, hend, Ending.text]
  · have hcor : Corresponds p.markers (.pair a b)
        (.pair { a with text := x } { b with text := y }) :=
      .of_line hp hq hv rfl rfl hab happend rfl
    have htidy : Line.Tidy ({ a with text := x } :: { b with text := y } :: ls) := by
      refine Line.tidy_cons.2 ⟨⟨hnx, hrx⟩, fun he => absurd he ha, ?_⟩
      refine Line.tidy_cons.2 ⟨⟨hny, hry⟩, fun he => ⟨?_, h.lines_eq_nil (hb he)⟩, h.tidy⟩
      exact fun hy => hgone ⟨hy, he⟩
    exact ⟨_, .pair { a with text := x } { b with text := y }, happend, by simp [h.join_eq], htidy,
      .pair hopens hj h.grouped, .cons hcor h.corresponds⟩

end ReadBack

theorem Corresponds.reports_eq {m : Markers} {g g' : Group} (h : Corresponds m g g') :
    Stamping.reports m g' = Stamping.reports m g := by
  rw [Stamping.reports, Stamping.reports, h.declares_eq, h.fileVersion_eq]

/-- The value of a version line is the one that was put there. -/
theorem Quoted.IsVersion.quoted_line {q : Quoted} (hq : q.IsVersion) (v : Text) :
    Text.quoted (Quoted.line { q with value := v }) = v := by
  rw [Text.quoted, Quoted.split?_line (q := { q with value := v }) hq.before hq.after]

namespace Stamping

variable {p : Profile} {o : StampOptions}

/-- A version line is stamped, and has its say in the version reported. -/
theorem stampText_line (ho : o.IsPlain) (m : Markers) (s : State) {q : Quoted} (hq : q.IsVersion) :
    ∃ v s', IsTemplate v ∧ stampText m o s q.line = some (Quoted.line { q with value := v }, s') ∧
      s'.version = if m.isFileVersion q.line then s.version else some v := by
  obtain ⟨v, hv, happly⟩ :=
    apply_ruleFor_line ho m (s.semantic || Text.contains m.semanticVersion q.line) hq
  refine ⟨v, s.advance m q.line (Quoted.line { q with value := v }), hv, ?_, ?_⟩
  · rw [stampText, happly]
    rfl
  · rw [State.advance, hq.quoted_line]

/-- The version after a version line, of which `g'` is what was written. -/
theorem or_lastValue_cons {m : Markers} {q : Quoted} (hq : q.IsVersion) {v : Text} {g g' : Group}
    (hd : g.declares = true) (ht : g.text = q.line)
    (ht' : g'.text = Quoted.line { q with value := v }) (hcor : Corresponds m g g')
    (version : Option Text) (gs : List Group) :
    (lastValue m gs).or (if m.isFileVersion q.line then version else some v) =
      (lastValue m (g' :: gs)).or version := by
  have hreports : reports m g' = !m.isFileVersion q.line := by
    rw [hcor.reports_eq, reports, hd, ht, Bool.true_and]
  rw [lastValue_cons, hreports, ht', hq.quoted_line, Option.or_assoc]
  cases m.isFileVersion q.line <;> simp

/-- **The pass over well-formed lines**: it succeeds, what it writes is read again as lines that
correspond, each as it was stamped, and the version is the value of the last of those that has a
say. -/
theorem stampGroups_readBack (hp : p.IsSteady) (ho : o.IsPlain) {ls : List Line} {gs : List Group}
    (h : Grouped p.declaresVersion p.joinsNextLine ls gs) (ht : Line.Tidy ls)
    (hvalues : ∀ g ∈ gs, g.declares = true → ∃ q : Quoted, q.IsVersion ∧ g.text = q.line)
    {done : List Group} {s : State} (hs : s.semantic = declaresSemantic p.markers done) :
    ∃ written s' ls' gs', stampGroups p.markers o s gs = some (written, s') ∧
      s'.version = (lastValue p.markers gs').or s.version ∧ ReadBack p gs written ls' gs' ∧
      StampedInto p.markers o done gs gs' := by
  induction h generalizing done s with
  | nil => exact ⟨[], s, [], [], rfl, rfl, .nil, by simp [StampedInto]⟩
  | @other l ls gs hl hgrouped ih =>
    obtain ⟨⟨hn, hr⟩, hlast, ht⟩ := Line.tidy_cons.1 ht
    rw [List.forall_mem_cons] at hvalues
    have hs₁ : s.semantic = declaresSemantic p.markers (done ++ [.other l]) := by
      simp [declaresSemantic, Group.declares, hs]
    obtain ⟨written, s', ls', gs', hstamp, hversion, hread, hinto⟩ := ih ht hvalues.2 hs₁
    have htidy : Line.Tidy (l :: ls') := by
      refine Line.tidy_cons.2 ⟨⟨hn, hr⟩, fun he => ⟨(hlast he).1, ?_⟩, hread.tidy⟩
      exact hread.lines_eq_nil (hgrouped.eq_nil_iff.1 (hlast he).2)
    refine ⟨l :: written, s', l :: ls', .other l :: gs', ?_, ?_, hread.cons_other hl htidy,
      stampedInto_cons_iff.2 ⟨fun hd => by simp [Group.declares] at hd, hinto⟩⟩
    · simp [stampGroups, stampGroup, hstamp]
    · rw [hversion, lastValue_cons]
      simp [reports, Group.declares]
  | @single l ls gs hl hj hgrouped ih =>
    obtain ⟨⟨hn, hr⟩, hlast, ht⟩ := Line.tidy_cons.1 ht
    rw [List.forall_mem_cons] at hvalues
    obtain ⟨q, hq, htext⟩ := hvalues.1 rfl
    obtain ⟨v, s₁, hv, hline, hsay⟩ := stampText_line ho p.markers s hq
    obtain ⟨hat, hs₁, -⟩ := stampText_eq_some (g := .single l) rfl hs
      (show stampText p.markers o s (Group.single l).text = _ from htext ▸ hline)
    obtain ⟨written, s', ls', gs', hstamp, hversion, hread, hinto⟩ := ih ht hvalues.2 hs₁
    obtain ⟨ls'', g', htext', hcons⟩ := hread.cons_single hp hq hv htext hl hn hr
      (fun he => hgrouped.eq_nil_iff.1 (hlast he).2) (fun h => hgrouped.eq_nil_iff.1 (hj h))
    refine ⟨_, s', ls'', g' :: gs', ?_, ?_, hcons, stampedInto_cons_iff.2 ⟨fun _ => htext' ▸ hat, hinto⟩⟩
    · rw [← show l.text = q.line from htext] at hline
      simp [stampGroups, stampGroup, hline, hstamp]
    · rw [hversion, hsay]
      exact or_lastValue_cons hq rfl htext htext' (List.forall₂_cons.1 hcons.corresponds).1 _ _
  | @pair a b ls gs ha hj hgrouped ih =>
    obtain ⟨⟨hna, hra⟩, hlasta, htb⟩ := Line.tidy_cons.1 ht
    obtain ⟨⟨hnb, hrb⟩, hlastb, ht⟩ := Line.tidy_cons.1 htb
    rw [List.forall_mem_cons] at hvalues
    obtain ⟨q, hq, htext⟩ := hvalues.1 rfl
    have hab : a.text ++ b.text = q.line := htext
    obtain ⟨v, s₁, hv, hline, hsay⟩ := stampText_line ho p.markers s hq
    obtain ⟨hat, hs₁, -⟩ := stampText_eq_some (g := .pair a b) rfl hs
      (show stampText p.markers o s (Group.pair a b).text = _ from htext ▸ hline)
    obtain ⟨written, s', ls', gs', hstamp, hversion, hread, hinto⟩ := ih ht hvalues.2 hs₁
    have hn : '\n' ∉ q.line := by simp [← hab, hna, hnb]
    have hr : '\r' ∉ q.line := by simp [← hab, hra, hrb]
    rcases hxy : cut q.line (Quoted.line { q with value := v }) (Text.byteLength a.text)
      with ⟨x, y⟩
    obtain ⟨ls'', g', htext', hcons⟩ := hread.cons_pair hp hq hv hab ha hj hn hr
      (fun he => by simpa using (hlasta he).2) (fun he => hgrouped.eq_nil_iff.1 (hlastb he).2) hxy
    refine ⟨_, s', ls'', g' :: gs', ?_, ?_, hcons, stampedInto_cons_iff.2 ⟨fun _ => htext' ▸ hat, hinto⟩⟩
    · simp [stampGroups, stampGroup, hab, hline, hxy, hstamp]
    · rw [hversion, hsay]
      exact or_lastValue_cons hq rfl htext htext' (List.forall₂_cons.1 hcons.corresponds).1 _ _

end Stamping

theorem Corresponds.any_reports {m : Markers} : ∀ {gs gs' : List Group},
    List.Forall₂ (Corresponds m) gs gs' →
      gs'.any (Stamping.reports m) = gs.any (Stamping.reports m)
  | [], [], .nil => rfl
  | g :: gs, g' :: gs', .cons h hs => by
    rw [List.any_cons, List.any_cons, h.reports_eq, any_reports hs]

/-- Every logical line after a stamping is that of a line before it. -/
theorem Corresponds.exists_left {m : Markers} : ∀ {gs gs' : List Group},
    List.Forall₂ (Corresponds m) gs gs' → ∀ g' ∈ gs', ∃ g ∈ gs, Corresponds m g g'
  | [], [], .nil, _, hg => absurd hg List.not_mem_nil
  | g :: gs, _ :: _, .cons h hs, g', hg => by
    rcases List.mem_cons.1 hg with rfl | hg
    · exact ⟨g, List.mem_cons_self, h⟩
    · obtain ⟨g₀, hg₀, hcor⟩ := exists_left hs g' hg
      exact ⟨g₀, List.mem_cons_of_mem g hg₀, hcor⟩

/-- **A well-formed file is stamped and can be read again**: it stays well-formed, with the same
logical lines, each as it was stamped, and the version reported is the value of the last one that
has a say. -/
theorem stampSource_stampedInto {p : Profile} (hp : p.IsSteady) {o : StampOptions} (ho : o.IsPlain)
    (path : Path) {content : Text} (hw : p.WellFormed content) :
    ∃ r : Stamped, stampSource p o path (Source.ofText content) = .ok r ∧ p.WellFormed r.content ∧
      List.Forall₂ (Corresponds p.markers) (p.groups content) (p.groups r.content) ∧
      Stamping.lastValue p.markers (p.groups r.content) = some r.version ∧
      Stamping.StampedInto p.markers o [] (p.groups content) (p.groups r.content) := by
  have hs₀ : ({} : Stamping.State).semantic = Stamping.declaresSemantic p.markers [] := rfl
  obtain ⟨written, s', ls', gs', hstamp, hlast, hread, hinto⟩ :=
    Stamping.stampGroups_readBack hp ho (p.grouped content) (Line.tidy_split hw.returns)
      hw.values hs₀
  have hany : (p.groups content).any (Stamping.reports p.markers) = true :=
    List.any_eq_true.2 hw.reported
  have hany' : gs'.any (Stamping.reports p.markers) = true :=
    (Corresponds.any_reports hread.corresponds).trans hany
  rw [Option.or_none] at hlast
  obtain ⟨version, hversion⟩ : ∃ version, s'.version = some version := by
    obtain ⟨g, hg, hsay⟩ := List.any_eq_true.1 hany'
    have hmem : g ∈ gs'.filter (Stamping.reports p.markers) := List.mem_filter.2 ⟨hg, hsay⟩
    rw [hlast, Stamping.lastValue, List.getLast?_eq_some_getLast (List.ne_nil_of_mem hmem)]
    exact ⟨_, rfl⟩
  have hgroups : p.groups (Line.join written) = gs' := by
    rw [Profile.groups, ← hread.join_eq, Line.split_join hread.tidy.1,
      Group.sort_of_grouped hread.grouped]
  refine ⟨⟨Line.join written, version, s'.semantic, upcoming version o.isRelease, path⟩,
    ?_, ?_, ?_, ?_, ?_⟩
  · simp only [stampSource_ofText, hstamp, hversion]
  · constructor
    · show Text.ReturnsEndLines (Line.join written)
      rw [← hread.join_eq]
      exact (Line.returnsEndLines_join hread.tidy.1).2 hread.tidy.2
    · show ∃ g ∈ p.groups (Line.join written), Stamping.reports p.markers g = true
      rw [hgroups]
      exact List.any_eq_true.1 hany'
    · show ∀ g ∈ p.groups (Line.join written), g.declares = true → _
      rw [hgroups]
      intro g' hg' hd
      obtain ⟨g, _, hcor⟩ := Corresponds.exists_left hread.corresponds g' hg'
      obtain ⟨q, v, hq, hv, _, ht⟩ := hcor.around (hcor.declares_eq ▸ hd)
      exact ⟨_, hq.with_value hv, ht⟩
  · show List.Forall₂ (Corresponds p.markers) (p.groups content) (p.groups (Line.join written))
    rw [hgroups]
    exact hread.corresponds
  · show Stamping.lastValue p.markers (p.groups (Line.join written)) = some version
    rw [hgroups, ← hlast, hversion]
  · show Stamping.StampedInto p.markers o [] (p.groups content) (p.groups (Line.join written))
    rw [hgroups]
    exact hinto

/-- The version reported is the value of the last logical line that has a say. -/
theorem stampSource_readBack {p : Profile} (hp : p.IsSteady) {o : StampOptions} (ho : o.IsPlain)
    (path : Path) {content : Text} (hw : p.WellFormed content) :
    ∃ r : Stamped, stampSource p o path (Source.ofText content) = .ok r ∧ p.WellFormed r.content ∧
      List.Forall₂ (Corresponds p.markers) (p.groups content) (p.groups r.content) ∧
      Stamping.lastValue p.markers (p.groups r.content) = some r.version := by
  obtain ⟨r, hr, hwr, hcor, hlast, -⟩ := stampSource_stampedInto hp ho path hw
  exact ⟨r, hr, hwr, hcor, hlast⟩

/-- A well-formed file is stamped and stays well-formed, with the same logical lines. -/
theorem stampSource_wellFormed {p : Profile} (hp : p.IsSteady) {o : StampOptions} (ho : o.IsPlain)
    (path : Path) {content : Text} (hw : p.WellFormed content) :
    ∃ r : Stamped, stampSource p o path (Source.ofText content) = .ok r ∧ p.WellFormed r.content ∧
      List.Forall₂ (Corresponds p.markers) (p.groups content) (p.groups r.content) := by
  obtain ⟨r, hr, hwr, hcor, -⟩ := stampSource_readBack hp ho path hw
  exact ⟨r, hr, hwr, hcor⟩

/-! ### Chains of stampings -/

/-- Stamps a text once for each of the options, each time what the last time gave. -/
def stampChain (p : Profile) (path : Path) :
    Text → List StampOptions → Except Failure (List Stamped)
  | _, [] => .ok []
  | content, o :: os => do
    let r ← stampSource p o path (Source.ofText content)
    let rs ← stampChain p path r.content os
    .ok (r :: rs)

theorem Corresponds.forall₂_trans {m : Markers} : ∀ {gs₁ gs₂ gs₃ : List Group},
    List.Forall₂ (Corresponds m) gs₁ gs₂ → List.Forall₂ (Corresponds m) gs₂ gs₃ →
      List.Forall₂ (Corresponds m) gs₁ gs₃
  | [], [], [], .nil, .nil => .nil
  | _ :: _, _ :: _, _ :: _, .cons h hs, .cons h' hs' => .cons (h.trans h') (forall₂_trans hs hs')

/-- **A well-formed file can be stamped any number of times.** Every stamping of the chain succeeds
and leaves a well-formed file whose logical lines are, one by one, those of the first file. -/
theorem stampChain_wellFormed (l : Language) (path : Path) :
    ∀ (os : List StampOptions) (content : Text), (∀ o ∈ os, o.IsPlain) →
      l.profile.WellFormed content →
      ∃ rs, stampChain l.profile path content os = .ok rs ∧ rs.length = os.length ∧
        ∀ r ∈ rs, l.profile.WellFormed r.content ∧
          List.Forall₂ (Corresponds l.profile.markers) (l.profile.groups content)
            (l.profile.groups r.content)
  | [], _, _, _ => ⟨[], rfl, rfl, by simp⟩
  | o :: os, content, ho, hw => by
    rw [List.forall_mem_cons] at ho
    obtain ⟨r, hr, hwr, hcor⟩ := stampSource_wellFormed l.isSteady ho.1 path hw
    obtain ⟨rs, hrs, hlen, hall⟩ := stampChain_wellFormed l path os r.content ho.2 hwr
    refine ⟨r :: rs, ?_, by simp [hlen], ?_⟩
    · rw [stampChain, hr]
      show (stampChain l.profile path r.content os >>= fun rs => .ok (r :: rs)) = _
      rw [hrs]
      rfl
    · rw [List.forall_mem_cons]
      exact ⟨⟨hwr, hcor⟩, fun r' hr' =>
        ⟨(hall r' hr').1, Corresponds.forall₂_trans hcor (hall r' hr').2⟩⟩

/-- A pair whose value straddles its lines and shrinks: its second line has no ending and is gone
after the first stamping, and the second stamping finds the declaration on one line. -/
theorem stampChain_wellFormed_shrinking :
    ∃ r₁ r₂ : Stamped,
      stampChain Language.cobol.profile "info"
        "CUSTOM-ATTRIBUTE CA-ASSEMBLYVERSION \"1.0-d2019\n0101\""
        [{ versionPart := some ['7'], newDevelopment := some ['2'], now := ⟨2019, 1, 1, 12, 0⟩ },
          { versionPart := some ['7'], newDevelopment := some ['1', '0', '-', 'd'],
            now := ⟨2019, 1, 1, 12, 0⟩ }] = .ok [r₁, r₂] ∧
      r₁.content = "CUSTOM-ATTRIBUTE CA-ASSEMBLYVERSION \"2.0\"\n".toList ∧
      r₂.content = "CUSTOM-ATTRIBUTE CA-ASSEMBLYVERSION \"10.0\"\n".toList ∧
      ∀ r ∈ [r₁, r₂], Language.cobol.profile.WellFormed r.content ∧
        List.Forall₂ (Corresponds Language.cobol.profile.markers)
          (Language.cobol.profile.groups "CUSTOM-ATTRIBUTE CA-ASSEMBLYVERSION \"1.0-d2019\n0101\"")
          (Language.cobol.profile.groups r.content) := by
  have hgroups : Language.cobol.profile.groups
      "CUSTOM-ATTRIBUTE CA-ASSEMBLYVERSION \"1.0-d2019\n0101\"" =
      [.pair ⟨"CUSTOM-ATTRIBUTE CA-ASSEMBLYVERSION \"1.0-d2019", .lineFeed⟩ ⟨"0101\"", .none⟩] := by
    decide +kernel
  have hvalue : IsTemplate "1.0-d20190101" :=
    @IsTemplate.marked ['1', '.', '0'] "20190101"
      ⟨by decide, List.all_eq_true.1 (by decide)⟩ (List.all_eq_true.1 (by decide))
  have hw : Language.cobol.profile.WellFormed
      "CUSTOM-ATTRIBUTE CA-ASSEMBLYVERSION \"1.0-d2019\n0101\"" := by
    refine ⟨?_, ?_, ?_⟩
    · exact Text.returnsEndLines_of_notMem (by decide)
    · rw [hgroups]
      exact ⟨_, List.mem_cons_self, by decide⟩
    · rw [hgroups]
      intro g hg _
      obtain rfl := List.mem_singleton.1 hg
      exact ⟨⟨"CUSTOM-ATTRIBUTE CA-ASSEMBLYVERSION ", "1.0-d20190101", []⟩,
        ⟨by decide, by decide, hvalue⟩, by decide⟩
  have hseven : ∃ part, some ['7'] = some part ∧ part ≠ [] ∧ AllDigits part :=
    ⟨['7'], rfl, by decide, List.all_eq_true.1 (by decide)⟩
  have hplain : IsGiven ['2'] := .plain ⟨by decide, List.all_eq_true.1 (by decide)⟩
  have htwo : StampOptions.IsPlain
      { versionPart := some ['7'], newDevelopment := some ['2'], now := ⟨2019, 1, 1, 12, 0⟩ } :=
    ⟨hseven, by simp, by simpa using hplain, by decide⟩
  have hmarked : IsGiven ['1', '0', '-', 'd'] :=
    @IsGiven.marked ['1', '0'] ⟨by decide, List.all_eq_true.1 (by decide)⟩
  have hten : StampOptions.IsPlain
      { versionPart := some ['7'], newDevelopment := some ['1', '0', '-', 'd'],
        now := ⟨2019, 1, 1, 12, 0⟩ } :=
    ⟨hseven, by simp, by simpa using hmarked, by decide⟩
  have hchain : stampChain Language.cobol.profile "info"
      "CUSTOM-ATTRIBUTE CA-ASSEMBLYVERSION \"1.0-d2019\n0101\""
      [{ versionPart := some ['7'], newDevelopment := some ['2'], now := ⟨2019, 1, 1, 12, 0⟩ },
        { versionPart := some ['7'], newDevelopment := some ['1', '0', '-', 'd'],
          now := ⟨2019, 1, 1, 12, 0⟩ }] = .ok [
        ⟨"CUSTOM-ATTRIBUTE CA-ASSEMBLYVERSION \"2.0\"\n", "2.0", false, ⟨"2.0", "2.0-d"⟩, "info"⟩,
        ⟨"CUSTOM-ATTRIBUTE CA-ASSEMBLYVERSION \"10.0\"\n", "10.0", false, ⟨"10.0", "10.0-d"⟩,
          "info"⟩] := by
    decide +kernel
  refine ⟨_, _, hchain, rfl, rfl, ?_⟩
  have hall := List.forall_mem_cons.2 ⟨htwo, List.forall_mem_singleton.2 hten⟩
  obtain ⟨rs, hrs, _, hfiles⟩ := stampChain_wellFormed .cobol "info" _ _ hall hw
  rw [hchain, Except.ok.injEq] at hrs
  subst hrs
  exact hfiles

end Nameplate
