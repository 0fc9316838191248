/-
# The byte at which a stamped pair is cut

A pair is cut after as many bytes as its first line had. Only where the value ended on
that line does the cut move with the change of length, by as many bytes as the stamped
text is longer or shorter, and not below zero (`Stamping.IsTarget`).

That target may lie behind the end of the stamped text or within a character. So the
cut is made at a boundary that is searched for downwards from the target, or from the
end where that comes first (`Stamping.cutPoint?`). The search finds the greatest
boundary there is, at most three bytes below its start, and the two lines are the bytes
before it and those from it on (`Stamping.cutPoint?_tight`).

Key definitions: `Stamping.IsTarget`, `Stamping.cutPoint?`, `Stamping.IsCutPoint`.
Key theorems: `Stamping.isTarget_cutTarget`, `Stamping.cutPoint?_tight`.
-/
import Nameplate.Proofs.Text.Boundary
import Nameplate.Proofs.Version.Cut

namespace Nameplate

/-- The last quote of a line that has another before it ends the value. -/
theorem Quoted.exists_split? {t u : Text} (ht : '"' ∈ t) (hu : '"' ∉ u) :
    ∃ q, split? (t ++ '"' :: u) = some q ∧ q.before ++ '"' :: q.value = t := by
  obtain ⟨before, value, rfl, hbefore⟩ := List.eq_append_cons_of_mem ht
  have hline : before ++ '"' :: value ++ '"' :: u = line ⟨before, value, u⟩ := by
    rw [line, List.append_assoc, List.cons_append]
  refine ⟨⟨before, value, u⟩, ?_, rfl⟩
  rw [hline]
  exact split?_line hbefore hu

namespace Stamping

/-! ### The target of the cut -/

/-- The byte at which a stamped pair should be cut. That the value ends before the boundary is told
by the last quote of the pair. -/
inductive IsTarget (joined stamped : Text) (boundary : Nat) : Nat → Prop
  /-- The boundary moves with the length of the text. -/
  | moved {t u : Text} : joined = t ++ '"' :: u → '"' ∈ t → '"' ∉ u →
      Text.byteLength t < boundary →
      IsTarget joined stamped boundary
        (boundary + (Text.byteLength stamped - Text.byteLength joined : Int)).toNat
  /-- Without a value that ends before it the boundary stays. -/
  | kept : (∀ t u, joined = t ++ '"' :: u → '"' ∈ t → '"' ∉ u → boundary ≤ Text.byteLength t) →
      IsTarget joined stamped boundary boundary

/-- **The target is that of the last quote and the change of length.** -/
theorem isTarget_cutTarget (joined stamped : Text) (boundary : Nat) :
    IsTarget joined stamped boundary (cutTarget joined stamped boundary) := by
  cases hsplit : Quoted.split? joined with
  | none =>
    have htarget : cutTarget joined stamped boundary = boundary := by
      rw [cutTarget, Text.quotedExtent, hsplit, Option.map_none]
    rw [htarget]
    refine .kept fun t u hjoined ht hu => ?_
    obtain ⟨q, hq, -⟩ := Quoted.exists_split? ht hu
    rw [hjoined, hq] at hsplit
    cases hsplit
  | some q =>
    obtain ⟨rfl, hbefore, hafter⟩ := Quoted.line_of_split? hsplit
    have hstop := byteLength_quote q.before q.value
    rw [cutTarget_line hbefore hafter, ← hstop]
    by_cases hlt : Text.byteLength (q.before ++ '"' :: q.value) < boundary
    · have hline : q.line = (q.before ++ '"' :: q.value) ++ '"' :: q.after := by
        rw [Quoted.line, List.append_assoc, List.cons_append]
      have hquote : '"' ∈ q.before ++ '"' :: q.value :=
        List.mem_append_right _ List.mem_cons_self
      have hmoved : boundary + Text.byteLength stamped - Text.byteLength q.line =
          (boundary + (Text.byteLength stamped - Text.byteLength q.line : Int)).toNat := by
        omega
      rw [if_pos hlt, hmoved]
      exact .moved hline hquote hafter hlt
    · rw [if_neg hlt]
      refine .kept fun t u hjoined ht hu => ?_
      obtain ⟨q', hq', rfl⟩ := Quoted.exists_split? ht hu
      rw [hjoined, hq'] at hsplit
      obtain rfl := Option.some.inj hsplit
      omega

/-! ### The search for the cut -/

/-- The byte at which a stamped pair is cut: the first boundary met on the way down from the target,
or from the end of the text. `none` would be a search that runs below zero. -/
def cutPoint? (joined stamped : Text) (boundary : Nat) : Option Nat :=
  Utf8.boundaryFrom? (Utf8.encode stamped)
    (min (cutTarget joined stamped boundary) (Text.byteLength stamped))

example : cutPoint? "ab\"x\"" "é" 1 = some 0 ∧ cutPoint? "abc" "a" 3 = some 1 := by decide

/-- The stamped text is cut at a byte, at most `limit` bytes from its beginning, into two lines. -/
structure IsCutPoint (stamped : Text) (limit point : Nat) (lines : Text × Text) : Prop where
  greatest : IsGreatest {k | Utf8.isBoundary (Utf8.encode stamped) k = true ∧ k ≤ limit} point
  /-- No character is longer than four bytes. -/
  near : limit ≤ point + 3
  first : Utf8.encode lines.1 = (Utf8.encode stamped).take point
  second : Utf8.encode lines.2 = (Utf8.encode stamped).drop point

/-- **A stamped pair is cut at the greatest boundary up to its target**, or up to its end. The search
for it finds one in every text, and the lines of the pair are the bytes on its two sides. -/
theorem cutPoint?_tight (joined stamped : Text) (boundary : Nat) :
    ∃ target point, IsTarget joined stamped boundary target ∧
      cutPoint? joined stamped boundary = some point ∧
      IsCutPoint stamped (min (Text.byteLength stamped) target) point
        (cut joined stamped boundary) := by
  let target := cutTarget joined stamped boundary
  have hmin : min (Text.byteLength stamped) target = min target (Text.byteLength stamped) :=
    Nat.min_comm _ _
  have hcut : cut joined stamped boundary = Text.splitAtBytes target stamped := rfl
  have hpoint : cutPoint? joined stamped boundary =
      some (Text.byteLength (cut joined stamped boundary).1) := by
    rw [cutPoint?, Utf8.boundaryFrom?_encode, Text.splitAtBytes_min, hcut]
  have hwhole := cut_append joined stamped boundary
  refine ⟨target, _, isTarget_cutTarget joined stamped boundary, hpoint, ?_, ?_, ?_, ?_⟩
  · rw [hmin]
    exact (Utf8.boundaryFrom?_eq_some_iff _ _ _).1 hpoint
  · rw [hmin, hcut]
    exact Text.le_splitAtBytes_add target stamped
  · calc Utf8.encode (cut joined stamped boundary).1
        = (Utf8.encode ((cut joined stamped boundary).1 ++ (cut joined stamped boundary).2)).take
            (Text.byteLength (cut joined stamped boundary).1) :=
          (Utf8.take_encode_append _ _).symm
      _ = (Utf8.encode stamped).take (Text.byteLength (cut joined stamped boundary).1) := by
          rw [hwhole]
  · calc Utf8.encode (cut joined stamped boundary).2
        = (Utf8.encode ((cut joined stamped boundary).1 ++ (cut joined stamped boundary).2)).drop
            (Text.byteLength (cut joined stamped boundary).1) :=
          (Utf8.drop_encode_append _ _).symm
      _ = (Utf8.encode stamped).drop (Text.byteLength (cut joined stamped boundary).1) := by
          rw [hwhole]

end Stamping
end Nameplate
