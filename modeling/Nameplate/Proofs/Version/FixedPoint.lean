/-
# Settled files

A declaration is settled where no number is left to be filled in and, where a
rule for semantic versions stamps it, no mark is left either
(`Stamping.IsSettled`). Without a new development version every rule leaves
the value of such a declaration as it is (`IsSettled.stampedAt_eq`), and a pair
that keeps its text is cut where it was cut before, whatever its characters
take and wherever its value stands (`Stamping.cut_self`). Logical lines that are
each stamped as what they are, for whatever reason, make up a file that is stamped
and stays as it is (`stampSource_of_fixed`); a file of settled declarations is one
(`stampSource_settled`).

Nothing is asked of the number of quotes on a line, of its other characters or
of how the lines end. A mark may stand before the first semantic version and
on every line with the second version.

Key definition: `Stamping.IsSettled`.
Key theorems: `Stamping.stampGroups_of_fixed`, `stampSource_of_fixed`,
`stampSource_settled`.
-/
import Nameplate.Proofs.Version.Cut
import Nameplate.Proofs.Version.Outcome
import Nameplate.Proofs.Version.Settled

namespace Nameplate

namespace Template

theorem zero_of_notMem {v : Text} (h : placeholder ∉ v) : zero v = v :=
  Text.replace_of_notMem h

/-- There is no place for a stamp without a mark. -/
theorem stampMark_of_contains_eq_false (stamp : Text) {v : Text}
    (h : Text.contains mark v = false) : stampMark stamp v = v := by
  induction v using stampMark.induct with
  | case1 rest =>
    have hmark : Text.contains mark ('-' :: 'd' :: rest) = true :=
      (Text.contains_iff mark _).2 ⟨[], rest, rfl⟩
    rw [hmark] at h
    exact absurd h (by decide)
  | case2 c rest hmark ih =>
    have hrest : Text.contains mark rest = false := by
      rw [Text.contains, Bool.or_eq_false_iff] at h
      exact h.2
    rw [stampMark, ih hrest]
    exact hmark
  | case3 => rfl

end Template

namespace Stamping

open Template

variable {m : Markers} {o : StampOptions}

/-- A declaration in which stamping has nothing to fill in and no mark to replace; `upTo` are the
logical lines up to it. -/
structure IsSettled (m : Markers) (upTo : List Group) (g : Group) : Prop where
  filled : placeholder ∉ Text.quotedOrAll g.text
  unmarked : m.isFileVersion g.text = false → declaresSemantic m upTo = true →
    Text.contains mark (Text.quotedOrAll g.text) = false

/-! ### One logical line -/

/-- **The rule for a settled declaration leaves it as it is**, whichever rule that is. -/
theorem IsSettled.stampedAt_eq {upTo : List Group} {g : Group} (hg : IsSettled m upTo g)
    (hnew : o.newDevelopment = none) : stampedAt m o upTo g.text = some g.text := by
  have hzero : zero (Text.quotedOrAll g.text) = Text.quotedOrAll g.text := zero_of_notMem hg.filled
  unfold stampedAt
  simp only [hnew]
  by_cases hnumeric : (m.isFileVersion g.text || !declaresSemantic m upTo) = true
  · rw [if_pos hnumeric]
    exact numeric_of_not_awaitsPart (decide_eq_false hg.filled) _
  · rw [if_neg hnumeric]
    have hmark : Text.contains mark (Text.quotedOrAll g.text) = false := by
      simp only [Bool.or_eq_true, Bool.not_eq_true', not_or, Bool.not_eq_true, Bool.not_eq_false]
        at hnumeric
      exact hg.unmarked hnumeric.1 hnumeric.2
    by_cases hrelease : o.isRelease = true
    · have hvalue : releaseValue o.releaseVersion (Text.quotedOrAll g.text) =
          Text.quotedOrAll g.text := by
        simp only [releaseValue, hzero, hmark, Bool.false_eq_true, if_false]
      rw [if_pos hrelease, release, Text.mapQuoted_eq_self hvalue]
    · have hvalue : stampMark o.now.stamp (zero (Text.quotedOrAll g.text)) =
          Text.quotedOrAll g.text := by
        rw [hzero, stampMark_of_contains_eq_false _ hmark]
      rw [if_neg hrelease, development, Text.mapQuoted_eq_self hvalue]

/-- A pair that keeps its text is cut where it was cut. -/
theorem cut_self (a b : Text) : cut (a ++ b) (a ++ b) (Text.byteLength a) = (a, b) := by
  have htarget : cutTarget (a ++ b) (a ++ b) (Text.byteLength a) = Text.byteLength a := by
    unfold cutTarget
    cases Text.quotedExtent (a ++ b) with
    | none => rfl
    | some extent =>
      simp only
      split
      · rw [Nat.add_sub_cancel]
      · rfl
  rw [cut, htarget, Text.splitAtBytes_byteLength]

/-- A declaration that is stamped as what it is keeps its text. -/
theorem stampText_of_fixed {s : State} {done : List Group} {g : Group}
    (hg : stampedAt m o (done ++ [g]) g.text = some g.text) (hd : g.declares = true)
    (hs : s.semantic = declaresSemantic m done) :
    stampText m o s g.text = some (g.text, s.advance m g.text g.text) := by
  have hsem : (s.semantic || Text.contains m.semanticVersion g.text) =
      declaresSemantic m (done ++ [g]) := by
    simp [declaresSemantic, hs, hd]
  simp only [stampText, hsem, apply_ruleFor, hg, Option.map_some]

/-- Its logical line is written as it was read, each of its lines for itself. -/
theorem stampGroup_of_fixed {s : State} {done : List Group} {g : Group}
    (hg : g.declares = true → stampedAt m o (done ++ [g]) g.text = some g.text)
    (hs : s.semantic = declaresSemantic m done) :
    ∃ s', stampGroup m o s g = some (g.lines, s') ∧
      s'.semantic = declaresSemantic m (done ++ [g]) ∧
      s'.version = if reports m g then some (Text.quoted g.text) else s.version := by
  have hwritten : ∃ s', stampGroup m o s g = some (g.lines, s') := by
    cases g with
    | other l => exact ⟨s, rfl⟩
    | single l =>
      have htext : stampText m o s l.text = some (l.text, s.advance m l.text l.text) :=
        stampText_of_fixed (hg rfl) rfl hs
      exact ⟨_, by rw [stampGroup, htext]; rfl⟩
    | pair a b =>
      have htext : stampText m o s (a.text ++ b.text) =
          some (a.text ++ b.text, s.advance m (a.text ++ b.text) (a.text ++ b.text)) :=
        stampText_of_fixed (hg rfl) rfl hs
      refine ⟨s.advance m (a.text ++ b.text) (a.text ++ b.text), ?_⟩
      simp only [stampGroup, htext, Option.map_some, cut_self, Group.lines]
  obtain ⟨s', hs'⟩ := hwritten
  obtain ⟨-, hsem, hver⟩ := stampGroup_eq_some hs hs'
  exact ⟨s', hs', hsem, by rwa [Group.flatMap_text_lines] at hver⟩

/-! ### All logical lines -/

/-- **Logical lines that are stamped into themselves are written as they were read**, after any
lines `done`. -/
theorem stampGroups_of_fixed : ∀ {gs done : List Group} {s : State},
    s.semantic = declaresSemantic m done → StampedInto m o done gs gs →
      ∃ s', stampGroups m o s gs = some (gs.flatMap Group.lines, s') ∧
        s'.semantic = declaresSemantic m (done ++ gs) ∧ s'.version = (lastValue m gs).or s.version
  | [], done, s, hs, _ => ⟨s, rfl, by rwa [List.append_nil], rfl⟩
  | g :: gs, done, s, hs, hfixed => by
    obtain ⟨hg, hgs⟩ := stampedInto_cons_iff.1 hfixed
    obtain ⟨s₁, hg, hsem₁, hver₁⟩ := stampGroup_of_fixed hg hs
    obtain ⟨s₂, hgs, hsem₂, hver₂⟩ := stampGroups_of_fixed hsem₁ hgs
    refine ⟨s₂, ?_, by simpa using hsem₂, ?_⟩
    · simp [stampGroups, hg, hgs]
    · rw [hver₂, hver₁, lastValue_cons, Option.or_assoc]
      split <;> rfl

/-- Settled logical lines are stamped into themselves. -/
theorem stampedInto_settled (hnew : o.newDevelopment = none) {gs : List Group}
    (hsettled : ∀ i g, gs[i]? = some g → g.declares = true → IsSettled m (gs.take (i + 1)) g) :
    StampedInto m o [] gs gs := by
  intro i g g' hi hi' hd
  obtain rfl := Option.some.inj (hi.symm.trans hi')
  exact (hsettled i g hi hd).stampedAt_eq hnew

theorem lastReported_lines (m : Markers) (gs : List Group) :
    lastReported m gs (gs.map Group.lines) = lastValue m gs := by
  induction gs with
  | nil => rfl
  | cons g gs ih =>
    rw [List.map_cons, lastReported_cons, lastValue_cons, ih, Group.flatMap_text_lines]

theorem isSome_lastValue (m : Markers) (gs : List Group) :
    (lastValue m gs).isSome = gs.any (reports m) := by
  rw [← lastReported_lines, isSome_lastReported (List.length_map _)]

end Stamping

open Stamping

/-- A file whose logical lines are stamped into themselves is stamped and stays as it is. -/
theorem stampSource_of_fixed {p : Profile} {o : StampOptions} {path : Path} {content : Text}
    {version : Text} (hfixed : StampedInto p.markers o [] (p.groups content) (p.groups content))
    (hlast : lastValue p.markers (p.groups content) = some version) :
    stampSource p o path (Source.ofText content) = .ok {
      content
      version
      isSemantic := declaresSemantic p.markers (p.groups content)
      next := upcoming version o.isRelease
      path } := by
  have hs₀ : ({} : State).semantic = declaresSemantic p.markers [] := rfl
  obtain ⟨s, hst, hsem, hver⟩ := stampGroups_of_fixed hs₀ hfixed
  have hcontent : Line.join ((p.groups content).flatMap Group.lines) = content := by
    rw [Profile.groups, Group.lines_sort, Line.join_split]
  rw [hlast, Option.some_or] at hver
  rw [List.nil_append] at hsem
  rw [stampSource_ofText, hst]
  simp only [hver, hsem, hcontent]

/-- **A settled file is a fixed point**: it is stamped, whatever the options, and every logical line
of the stamped file consists of the lines it had. -/
theorem stampSource_settled (l : Language) (o : StampOptions) (path : Path) (content : Text)
    (hnew : o.newDevelopment = none)
    (hsettled : ∀ i g, (l.profile.groups content)[i]? = some g → g.declares = true →
      IsSettled l.profile.markers ((l.profile.groups content).take (i + 1)) g)
    (hreports : ∃ g ∈ l.profile.groups content,
      g.declares = true ∧ l.profile.markers.isFileVersion g.text = false) :
    ∃ r, stampSource l.profile o path (Source.ofText content) = .ok r ∧
      r.content = content ∧
      r.Pointwise l.profile o path content (l.profile.groups content)
        ((l.profile.groups content).map Group.lines) := by
  have hfixed := stampedInto_settled hnew hsettled
  obtain ⟨version, hlast⟩ :
      ∃ version, lastValue l.profile.markers (l.profile.groups content) = some version := by
    obtain ⟨g, hg, hd, hf⟩ := hreports
    rw [← Option.isSome_iff_exists, isSome_lastValue, List.any_eq_true]
    exact ⟨g, hg, by simp [reports, hd, hf]⟩
  refine ⟨_, stampSource_of_fixed hfixed hlast, rfl, l.profile.grouped content, List.length_map _,
    ?_, ?_, rfl, ?_, rfl, rfl⟩
  · rw [← List.flatMap_def, Profile.groups, Group.lines_sort, Line.join_split]
  · intro i g hi
    refine ⟨g.lines, by rw [List.getElem?_map, hi, Option.map_some], rfl, fun _ => rfl, fun hd => ?_⟩
    rw [Group.flatMap_text_lines]
    exact hfixed i g g hi hi hd
  · rw [lastReported_lines, hlast]

/-- Three declarations: two pairs, and one that lacks its second line. -/
def settledPairs : Text :=
  "CUSTOM-ATTRIBUTE CA-ASSEMBLYVERSION \"1-d.é\n.0\" ü *\r\n".toList ++
    "CUSTOM-ATTRIBUTE CA-ASSEMBLYINFORMATIONALVERSION\n é \"1.2\" -d\n".toList ++
    "CUSTOM-ATTRIBUTE CA-ASSEMBLYVERSION \"4"

/-- A value with a character of two bytes straddles the lines of the first pair, a mark is left
before the semantic version and one behind its value, and the last declaration has neither a value
nor a second line: no rule finds anything to do. -/
theorem stampSource_settled_straddling :
    ∃ r, stampSource Language.cobol.profile { isRelease := true, now := ⟨2019, 1, 1, 12, 0⟩ } "info"
        (Source.ofText settledPairs) = .ok r ∧
      r.content = settledPairs ∧
      r.Pointwise Language.cobol.profile { isRelease := true, now := ⟨2019, 1, 1, 12, 0⟩ } "info"
        settledPairs (Language.cobol.profile.groups settledPairs)
        ((Language.cobol.profile.groups settledPairs).map Group.lines) := by
  have hgroups : Language.cobol.profile.groups settledPairs =
      [.pair ⟨"CUSTOM-ATTRIBUTE CA-ASSEMBLYVERSION \"1-d.é", .lineFeed⟩
          ⟨".0\" ü *", .carriageReturnLineFeed⟩,
        .pair ⟨"CUSTOM-ATTRIBUTE CA-ASSEMBLYINFORMATIONALVERSION", .lineFeed⟩
          ⟨" é \"1.2\" -d", .lineFeed⟩,
        .single ⟨"CUSTOM-ATTRIBUTE CA-ASSEMBLYVERSION \"4", .none⟩] := by
    decide +kernel
  refine stampSource_settled .cobol _ _ _ rfl ?_ ?_
  · rw [hgroups]
    intro i g hi _
    rcases i with _ | _ | _ | i
    rotate_left 3
    · exact absurd hi (by simp)
    all_goals
      obtain rfl := Option.some.inj hi
      exact ⟨by decide +kernel, by decide +kernel⟩
  · rw [hgroups]
    exact ⟨_, List.mem_cons_self, rfl, by decide +kernel⟩

end Nameplate
