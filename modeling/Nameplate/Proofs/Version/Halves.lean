/-
# The two lines of a stamped pair

Whatever rule stamps a line with a quoted value, nothing but the value changes
(`Rule.apply_line`). So of a pair the line that holds nothing of the value stays
as it is, to the byte: the second line where the value ends on the first, and the
first where the value begins on the second. A value that lies on both lines is
cut after as many bytes as before, or up to three sooner, at the end of a
character (`KeepsLines`).

That holds for a pair that is stamped by itself (`stampGroup_keepsLines`), and so
for each pair of a file that is stamped (`stampSource_pairs`).

Key definition: `Stamping.KeepsLines`.
Key theorems: `Stamping.cut_keepsLines`, `Stamping.stampGroup_keepsLines`,
`stampSource_pairs`.
-/
import Mathlib.Data.List.Forall2
import Nameplate.Proofs.Version.Cut
import Nameplate.Proofs.Version.Pointwise

namespace Nameplate
namespace Stamping

/-- What becomes of the lines `a` and `b` of a pair that is stamped as `stamped`: they are then `x`
and `y`. A line without a quote is one that holds nothing of the value. -/
structure KeepsLines (a b stamped x y : Text) : Prop where
  whole : x ++ y = stamped
  second : '"' ∉ b → y = b
  first : '"' ∉ a → x = a
  straddling : '"' ∈ a → '"' ∈ b → Text.IsLongestBeginning (Text.byteLength a) stamped x

/-- **A rule changes only the value.** -/
theorem Rule.apply_line {o : StampOptions} (rule : Rule) {q : Quoted} (hb : '"' ∉ q.before)
    (ha : '"' ∉ q.after) {stamped : Text} (h : rule.apply o q.line = some stamped) :
    ∃ v, stamped = Quoted.line { q with value := v } := by
  rw [rule.apply_eq] at h
  obtain ⟨v, -, rfl⟩ := Option.map_eq_some_iff.1 h
  exact ⟨v, Text.mapQuoted_line hb ha _⟩

/-- **The lines of a pair whose value has changed.** -/
theorem cut_keepsLines {q : Quoted} (hb : '"' ∉ q.before) (ha : '"' ∉ q.after) (v : Text)
    {a b : Text} (h : a ++ b = q.line) :
    KeepsLines a b (Quoted.line { q with value := v })
      (cut q.line (Quoted.line { q with value := v }) (Text.byteLength a)).1
      (cut q.line (Quoted.line { q with value := v }) (Text.byteLength a)).2 := by
  have hwhole := cut_append q.line (Quoted.line { q with value := v }) (Text.byteLength a)
  rcases Quoted.append_eq_line h with ⟨c, hc⟩ | ⟨u, w, hvalue, hau⟩ | ⟨s, has, hafter⟩
  · have hfirst : '"' ∉ a := fun hm => hb (hc ▸ List.mem_append_left c hm)
    have hline : a ++ b = a ++ (c ++ '"' :: (q.value ++ '"' :: q.after)) := by
      rw [h, Quoted.line, hc, List.append_assoc]
    have hsecond : '"' ∈ b := by simp [List.append_cancel_left hline]
    exact ⟨hwhole, fun hn => absurd hsecond hn, fun _ => cut_of_before hb ha v hc,
      fun hm => absurd hm hfirst⟩
  · have hfirst : '"' ∈ a := by simp [hau]
    have hline : a ++ b = a ++ (w ++ '"' :: q.after) := by
      rw [h, Quoted.line, hvalue, hau, List.append_assoc, List.append_assoc]
      rfl
    have hsecond : '"' ∈ b := by simp [List.append_cancel_left hline]
    refine ⟨hwhole, fun hn => absurd hsecond hn, fun hn => absurd hfirst hn, fun _ _ => ?_⟩
    rw [cut_of_within hb ha hvalue hau]
    exact Text.isLongestBeginning_splitAtBytes _ _
  · have hfirst : '"' ∈ a := by simp [has]
    have hsecond : '"' ∉ b := fun hm => ha (hafter ▸ List.mem_append_right s hm)
    rw [cut_of_after hb ha v h has hafter] at hwhole ⊢
    exact ⟨hwhole, fun _ => rfl, fun hn => absurd hfirst hn, fun _ hm => absurd hm hsecond⟩

/-- The lines of a pair with a value, whichever rule stamps it. -/
theorem Rule.keepsLines {o : StampOptions} (rule : Rule) {a b stamped : Text}
    (hquotes : 2 ≤ (a ++ b).count '"') (h : rule.apply o (a ++ b) = some stamped) :
    KeepsLines a b stamped (cut (a ++ b) stamped (Text.byteLength a)).1
      (cut (a ++ b) stamped (Text.byteLength a)).2 := by
  cases hq : Quoted.split? (a ++ b) with
  | none =>
    have hfew := (Quoted.split?_eq_none_iff _).1 hq
    omega
  | some q =>
    obtain ⟨hline, hb, ha⟩ := Quoted.line_of_split? hq
    rw [hline] at h ⊢
    obtain ⟨v, rfl⟩ := rule.apply_line hb ha h
    exact cut_keepsLines hb ha v hline

/-- **A pair keeps the line that holds nothing of its value.** `semantic` says whether a semantic
version has been declared, and the two lines are those that are written for the pair. -/
theorem stampGroup_keepsLines (m : Markers) (o : StampOptions) (semantic : Bool) (a b : Line)
    (stamped : Text) (hquotes : 2 ≤ (a.text ++ b.text).count '"')
    (h : (ruleFor m o semantic (a.text ++ b.text)).apply o (a.text ++ b.text) = some stamped) :
    ∃ x y, cut (a.text ++ b.text) stamped (Text.byteLength a.text) = (x, y) ∧
      KeepsLines a.text b.text stamped x y ∧
      ∀ s : State,
        (s.semantic || Text.contains m.semanticVersion (a.text ++ b.text)) = semantic →
        stampGroup m o s (.pair a b) =
          some ([⟨x, a.ending⟩, ⟨y, b.ending⟩], s.advance m (a.text ++ b.text) stamped) := by
  refine ⟨_, _, rfl, (ruleFor m o semantic _).keepsLines hquotes h, ?_⟩
  rintro s rfl
  rw [stampGroup, stampText, h]
  rfl

/-- A new value with a character of three bytes where the old one was cut, so the cut is made two
bytes sooner. -/
theorem stampGroup_keepsLines_multibyte :
    2 ≤ (List.count '"' ("CUSTOM-ATTRIBUTE CA-ASSEMBLYVERSION \"12.\".".toList)) ∧
      KeepsLines "CUSTOM-ATTRIBUTE CA-ASSEMBLYVERSION \"12" ".\"."
        "CUSTOM-ATTRIBUTE CA-ASSEMBLYVERSION \"1€.0\"."
        "CUSTOM-ATTRIBUTE CA-ASSEMBLYVERSION \"1" "€.0\"." ∧
      stampGroup Language.cobol.profile.markers
        { newDevelopment := some "1€", now := ⟨2019, 1, 1, 12, 0⟩ } {}
        (.pair ⟨"CUSTOM-ATTRIBUTE CA-ASSEMBLYVERSION \"12", .lineFeed⟩ ⟨".\".", .none⟩) =
        some ([⟨"CUSTOM-ATTRIBUTE CA-ASSEMBLYVERSION \"1", .lineFeed⟩, ⟨"€.0\".", .none⟩],
          { version := some "1€.0" }) := by
  have hcut : cut "CUSTOM-ATTRIBUTE CA-ASSEMBLYVERSION \"12.\"."
      "CUSTOM-ATTRIBUTE CA-ASSEMBLYVERSION \"1€.0\"."
      (Text.byteLength "CUSTOM-ATTRIBUTE CA-ASSEMBLYVERSION \"12") =
      ("CUSTOM-ATTRIBUTE CA-ASSEMBLYVERSION \"1".toList, "€.0\".".toList) := by
    decide +kernel
  obtain ⟨x, y, hxy, hkeeps, hstamp⟩ := stampGroup_keepsLines Language.cobol.profile.markers
    { newDevelopment := some "1€", now := ⟨2019, 1, 1, 12, 0⟩ } false
    ⟨"CUSTOM-ATTRIBUTE CA-ASSEMBLYVERSION \"12", .lineFeed⟩ ⟨".\".", .none⟩
    "CUSTOM-ATTRIBUTE CA-ASSEMBLYVERSION \"1€.0\"." (by decide) (by decide +kernel)
  obtain ⟨rfl, rfl⟩ := Prod.mk.inj (hxy.symm.trans hcut)
  exact ⟨by decide, hkeeps, hstamp {} (by decide)⟩

/-! ### The pairs of a file -/

/-- The lines of a pair in a stamped file; nothing is said of other logical lines, nor of a pair
without a quoted value. -/
def PairKept (g : Group) (out : List Line) : Prop :=
  ∀ a b, g = .pair a b → 2 ≤ (a.text ++ b.text).count '"' →
    ∃ stamped x y, out = [⟨x, a.ending⟩, ⟨y, b.ending⟩] ∧ KeepsLines a.text b.text stamped x y

theorem pairKept_of_stampGroup {m : Markers} {o : StampOptions} {s s' : State} {g : Group}
    {out : List Line} (h : stampGroup m o s g = some (out, s')) : PairKept g out := by
  rintro a b rfl hquotes
  obtain ⟨⟨stamped, t⟩, ht, hout⟩ := Option.map_eq_some_iff.1 h
  obtain ⟨stamped', happly, heq⟩ := Option.map_eq_some_iff.1 ht
  obtain rfl : stamped' = stamped := congrArg Prod.fst heq
  exact ⟨stamped', _, _, (congrArg Prod.fst hout).symm, Rule.keepsLines _ hquotes happly⟩

theorem forall₂_pairKept {m : Markers} {o : StampOptions} :
    ∀ {gs : List Group} {s s' : State} {lines : List Line},
      stampGroups m o s gs = some (lines, s') →
      ∃ outs : List (List Line), lines = outs.flatten ∧ List.Forall₂ PairKept gs outs
  | [], s, s', lines, h => by
    simp only [stampGroups, Option.some.injEq, Prod.mk.injEq] at h
    exact ⟨[], h.1.symm, .nil⟩
  | g :: gs, s, s', lines, h => by
    rw [stampGroups] at h
    obtain ⟨⟨out, s₁⟩, hg, h⟩ := Option.bind_eq_some_iff.1 h
    obtain ⟨⟨rest, s₂⟩, hgs, h⟩ := Option.bind_eq_some_iff.1 h
    simp only [Option.some.injEq, Prod.mk.injEq] at h
    obtain ⟨outs, hrest, hall⟩ := forall₂_pairKept hgs
    exact ⟨out :: outs, by rw [← h.1, hrest, List.flatten_cons],
      .cons (pairKept_of_stampGroup hg) hall⟩

end Stamping

open Stamping

/-- **Every pair of a stamped file keeps the line that holds nothing of its value.** -/
theorem stampSource_pairs {p : Profile} {o : StampOptions} {path : Path} {content : Text}
    {r : Stamped} (h : stampSource p o path (Source.ofText content) = .ok r) :
    ∃ outs : List (List Line), r.content = Line.join outs.flatten ∧
      List.Forall₂ PairKept (p.groups content) outs := by
  obtain ⟨lines, state, hgroups, hcontent, -⟩ := stampSource_ofText_eq_ok h
  obtain ⟨outs, rfl, hall⟩ := forall₂_pairKept hgroups
  exact ⟨outs, hcontent, hall⟩

end Nameplate
