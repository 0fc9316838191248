/-
# Cutting a stamped pair

A declaration that goes on to the next line is stamped as one text and cut in
two again. There are three places at which its first line may have ended: before
the value, within it, or after it (`Quoted.append_eq_line`). In the first case
the first line stays (`cut_of_before`); in the last the cut moves with the value,
so the text after it stays with it and the second line stays (`cut_of_after`); and
a value that straddles the lines leaves on the first line at least the text before
the value, its quote included, whatever the value has become (`cut_first`).

In each case the first line still opens the declaration
(`IsSteady.declaresVersion_cut`).

Key theorems: `Quoted.append_eq_line`, `Stamping.cut_of_before`,
`Stamping.cut_of_within`, `Stamping.cut_of_after`, `Stamping.cut_first`,
`Profile.IsSteady.declaresVersion_cut`.
-/
import Nameplate.Proofs.Version.Gates

namespace Nameplate

/-- The places at which a version line may be cut: before its value, within it, and after it. -/
theorem Quoted.append_eq_line {q : Quoted} {a b : Text} (h : a ++ b = q.line) :
    (∃ c, q.before = a ++ c) ∨ (∃ u w, q.value = u ++ w ∧ a = q.before ++ '"' :: u) ∨
      ∃ s, a = q.before ++ '"' :: (q.value ++ '"' :: s) ∧ q.after = s ++ b := by
  rcases List.append_eq_append_iff.1 h with ⟨c, hc, _⟩ | ⟨c, ha, hc⟩
  · exact Or.inl ⟨c, hc⟩
  · cases c with
    | nil => exact Or.inl ⟨[], by simpa using ha.symm⟩
    | cons x c =>
      obtain ⟨rfl, htail⟩ := List.cons.inj hc
      have hrest : q.value ++ '"' :: q.after = c ++ b := htail
      rcases List.append_eq_append_iff.1 hrest with ⟨d, hd, hr⟩ | ⟨d, hd, hr⟩
      · cases d with
        | nil => exact Or.inr (Or.inl ⟨c, [], by simpa using hd.symm, ha⟩)
        | cons y d =>
          obtain ⟨rfl, hafter⟩ := List.cons.inj hr
          exact Or.inr (Or.inr ⟨d, by rw [ha, hd], hafter⟩)
      · exact Or.inr (Or.inl ⟨c, d, hd, ha⟩)

namespace Stamping

theorem cutTarget_line {q : Quoted} (hb : '"' ∉ q.before) (ha : '"' ∉ q.after) (stamped : Text)
    (boundary : Nat) :
    cutTarget q.line stamped boundary =
      if Text.byteLength q.before + 1 + Text.byteLength q.value < boundary then
        boundary + Text.byteLength stamped - Text.byteLength q.line
      else boundary := by
  rw [cutTarget, Text.quotedExtent, Quoted.split?_line hb ha]
  rfl

theorem byteLength_quote (a b : Text) :
    Text.byteLength (a ++ '"' :: b) = Text.byteLength a + 1 + Text.byteLength b := by
  have hq : '"'.utf8Size = 1 := by decide
  rw [Text.byteLength_append, Text.byteLength, hq]
  omega

section Places

variable {q : Quoted} (hb : '"' ∉ q.before) (ha : '"' ∉ q.after) (v : Text) {a b : Text}

include hb ha

/-- Where the value begins on the second line, the first one stays. -/
theorem cut_of_before {c : Text} (hc : q.before = a ++ c) :
    (cut q.line (Quoted.line { q with value := v }) (Text.byteLength a)).1 = a := by
  have hlen : Text.byteLength q.before = Text.byteLength a + Text.byteLength c := by
    rw [hc, Text.byteLength_append]
  have hline : Quoted.line { q with value := v } = a ++ (c ++ '"' :: (v ++ '"' :: q.after)) := by
    rw [Quoted.line, hc, List.append_assoc]
  rw [cut, cutTarget_line hb ha, if_neg (by omega), hline, Text.splitAtBytes_byteLength]

/-- Where the value goes on to the second line, the cut is made after as many bytes as before. -/
theorem cut_of_within {u w : Text} (hvalue : q.value = u ++ w) (hau : a = q.before ++ '"' :: u)
    (stamped : Text) :
    cut q.line stamped (Text.byteLength a) = Text.splitAtBytes (Text.byteLength a) stamped := by
  have hlen : Text.byteLength a = Text.byteLength q.before + 1 + Text.byteLength u := by
    rw [hau, byteLength_quote]
  have hextent : Text.byteLength q.value = Text.byteLength u + Text.byteLength w := by
    rw [hvalue, Text.byteLength_append]
  rw [cut, cutTarget_line hb ha, if_neg (by omega)]

/-- Where the value ends on the first line, the cut moves with it and the second line stays. -/
theorem cut_of_after (h : a ++ b = q.line) {s : Text}
    (has : a = q.before ++ '"' :: (q.value ++ '"' :: s)) (hafter : q.after = s ++ b) :
    cut q.line (Quoted.line { q with value := v }) (Text.byteLength a) =
      (Quoted.line { q with value := v, after := s }, b) := by
  have hline : Quoted.line { q with value := v } =
      Quoted.line { q with value := v, after := s } ++ b := by
    simp [Quoted.line, hafter]
  have hnew := congrArg Text.byteLength hline
  have hold := congrArg Text.byteLength h
  rw [Text.byteLength_append] at hnew hold
  have hboundary : Text.byteLength a =
      Text.byteLength q.before + 1 + Text.byteLength q.value + 1 + Text.byteLength s := by
    rw [has, byteLength_quote, byteLength_quote]
    omega
  have htarget : Text.byteLength a + Text.byteLength (Quoted.line { q with value := v }) -
      Text.byteLength q.line =
        Text.byteLength (Quoted.line { q with value := v, after := s }) := by
    omega
  rw [cut, cutTarget_line hb ha, if_pos (by omega), htarget, hline, Text.splitAtBytes_byteLength]

/-- **The first line of a pair after stamping**: as it was, with the text before the value and its
quote, or with the new value in the place of the old one. -/
theorem cut_first (h : a ++ b = q.line) :
    (cut q.line (Quoted.line { q with value := v }) (Text.byteLength a)).1 = a ∨
      (∃ u t, u <+: q.value ∧ a = q.before ++ '"' :: u ∧
        (cut q.line (Quoted.line { q with value := v }) (Text.byteLength a)).1 =
          q.before ++ '"' :: t) ∨
      ∃ s, s <+: q.after ∧ a = Quoted.line { q with after := s } ∧
        (cut q.line (Quoted.line { q with value := v }) (Text.byteLength a)).1 =
          Quoted.line { q with value := v, after := s } := by
  rcases Quoted.append_eq_line h with ⟨c, hc⟩ | ⟨u, w, hvalue, hau⟩ | ⟨s, has, hafter⟩
  · exact Or.inl (cut_of_before hb ha v hc)
  · have hlen : Text.byteLength a = Text.byteLength (q.before ++ ['"']) + Text.byteLength u := by
      rw [hau, byteLength_quote, byteLength_quote, Text.byteLength]
    have hline : Quoted.line { q with value := v } =
        (q.before ++ ['"']) ++ (v ++ '"' :: q.after) := by
      rw [Quoted.line, List.append_assoc, List.singleton_append]
    rw [cut_of_within hb ha hvalue hau, hlen, hline, Text.splitAtBytes_append_left]
    refine Or.inr (Or.inl ⟨u, (Text.splitAtBytes (Text.byteLength u) (v ++ '"' :: q.after)).1,
      ⟨w, hvalue.symm⟩, hau, ?_⟩)
    rw [List.append_assoc, List.singleton_append]
  · rw [cut_of_after hb ha v h has hafter]
    exact Or.inr (Or.inr ⟨s, ⟨b, hafter.symm⟩, has, rfl⟩)

end Places

end Stamping

open Template

/-- **A stamped pair opens as it did.** -/
theorem Profile.IsSteady.declaresVersion_cut {p : Profile} (hp : p.IsSteady)
    (hjoins : p.joinsNextLine = true) {q : Quoted} (hq : q.IsVersion) {v : Text} (hv : IsTemplate v)
    {a b : Text} (h : a ++ b = q.line) (ho : p.declaresVersion a = true) :
    p.declaresVersion
      (Stamping.cut q.line (Quoted.line { q with value := v }) (Text.byteLength a)).1 = true := by
  rcases Stamping.cut_first hq.before hq.after v h with hx | ⟨u, t, hu, ha, hx⟩ | ⟨s, hs, ha, hx⟩
  · rw [hx]
    exact ho
  · rw [hx]
    rw [ha] at ho
    refine hp.declaresVersion_quote (fun m hm hc => ?_) (Or.inl (hp.lead hjoins)) ho
    rw [hm.contains_eq_false hq.value hu.isInfix] at hc
    exact absurd hc Bool.false_ne_true
  · rw [hx]
    rw [ha] at ho
    have hafter : '"' ∉ s := fun hm => hq.after (hs.subset hm)
    exact hp.declaresVersion_line (q := { q with after := s }) ⟨hq.before, hafter, hq.value⟩ hv ho

end Nameplate
