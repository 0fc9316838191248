/-
# Stamping that changes nothing

A step of development without a version part and without a new version only
fills placeholders with 0 and puts stamps behind marks. Both make a text
heavier when a placeholder weighs less than any other character
(`Text.weight`), and nothing makes up for it elsewhere in the file. So when
such a stamping leaves the file as it is, it leaves every line as it is, and
the version it reports is that of the last line that has a say, as it stands
in the file (`stampSource_unchanged`).

Key definitions: `Text.weight`, `StampOptions.IsIdle`.
Key theorems: `Stamping.stampGroups_weight`, `stampSource_unchanged`.
-/
import Nameplate.Proofs.Version.Pointwise

namespace Nameplate

namespace Text

/-- The weight of a text: two for each character, but one for a placeholder. -/
def weight : Text → Nat
  | [] => 0
  | c :: t => (if c = Template.placeholder then 1 else 2) + weight t

@[simp] theorem weight_append (s t : Text) : weight (s ++ t) = weight s + weight t := by
  induction s with
  | nil => rw [List.nil_append, weight, Nat.zero_add]
  | cons c s ih => rw [List.cons_append, weight, weight, ih, Nat.add_assoc]

theorem weight_pos {t : Text} (h : t ≠ []) : 0 < weight t := by
  cases t with
  | nil => exact absurd rfl h
  | cons c t =>
    unfold weight
    split <;> omega

/-- A text, or a heavier one in its place. -/
def Heavier (s t : Text) : Prop := s = t ∨ weight s < weight t

theorem Heavier.le {s t : Text} (h : Heavier s t) : weight s ≤ weight t := by
  rcases h with rfl | h
  · exact Nat.le_refl _
  · exact Nat.le_of_lt h

theorem Heavier.trans {s t u : Text} (h : Heavier s t) (h' : Heavier t u) : Heavier s u := by
  rcases h with rfl | h
  · exact h'
  · exact Or.inr (Nat.lt_of_lt_of_le h h'.le)

theorem Heavier.append {s t : Text} (h : Heavier s t) (a b : Text) :
    Heavier (a ++ (s ++ b)) (a ++ (t ++ b)) := by
  rcases h with rfl | h
  · exact Or.inl rfl
  · refine Or.inr ?_
    simp only [weight_append]
    omega

end Text

namespace Template

open Text

theorem heavier_zero : ∀ v : Text, Heavier v (zero v)
  | [] => Or.inl rfl
  | c :: v => by
    have ih := heavier_zero v
    have hcons : zero (c :: v) = (if c = placeholder then ['0'] else [c]) ++ zero v := by
      rw [zero, zero, replace, replace, List.flatMap_cons]
    rw [hcons]
    by_cases hc : c = placeholder
    · refine Or.inr ?_
      have hle := ih.le
      have hzero : '0' ≠ placeholder := by decide
      rw [if_pos hc, weight_append, weight, weight, weight, if_pos hc, if_neg hzero]
      omega
    · rw [if_neg hc]
      simpa using ih.append [c] []

theorem heavier_stampMark {stamp : Text} (hs : stamp ≠ []) (v : Text) :
    Heavier v (stampMark stamp v) := by
  induction v using stampMark.induct with
  | case1 rest =>
    have hpos := weight_pos hs
    refine Or.inr ?_
    simp only [stampMark, weight, weight_append]
    omega
  | case2 c rest hmark ih =>
    rw [stampMark]
    · simpa using ih.append [c] []
    · exact hmark
  | case3 => exact Or.inl rfl

/-- What becomes heavier makes its line heavier. -/
theorem heavier_mapQuoted {f : Text → Text} (hf : ∀ v, Heavier v (f v)) (line : Text) :
    Heavier line (mapQuoted f line) := by
  unfold mapQuoted
  cases hq : Quoted.split? line with
  | none => exact hf line
  | some q =>
    obtain ⟨hline, -, -⟩ := Quoted.line_of_split? hq
    have happend := (hf q.value).append (q.before ++ ['"']) ('"' :: q.after)
    rw [hline]
    simpa [Quoted.line] using happend

end Template

theorem Moment.stamp_ne_nil (m : Moment) : m.stamp ≠ [] := by
  have hpad (width n : Nat) : pad width n ≠ [] := by
    unfold pad Text.ofNat
    simp [Nat.toDigits_ne_nil]
  unfold stamp
  simp [hpad]

/-- Options for a step of development that fills in nothing and starts nothing. -/
structure StampOptions.IsIdle (o : StampOptions) : Prop where
  versionPart : o.versionPart = none
  newDevelopment : o.newDevelopment = none
  isRelease : o.isRelease = false

@[simp] theorem Group.flatMap_text_lines (g : Group) : g.lines.flatMap Line.text = g.text := by
  cases g <;> simp [lines, text]

theorem Line.weight_join (ls : List Line) :
    Text.weight (join ls) =
      Text.weight (ls.flatMap Line.text) + Text.weight ((ls.map Line.ending).flatMap Ending.text) := by
  induction ls with
  | nil => rfl
  | cons x ls ih =>
    rw [join_cons, whole, List.flatMap_cons, List.map_cons, List.flatMap_cons]
    simp only [Text.weight_append, ih]
    omega

namespace Stamping

open Text

variable {m : Markers} {o : StampOptions}

theorem heavier_stampedAt (ho : o.IsIdle) {upTo : List Group} {line stamped : Text}
    (h : stampedAt m o upTo line = some stamped) : Heavier line stamped := by
  unfold stampedAt at h
  rw [ho.newDevelopment] at h
  simp only [ho.isRelease, Bool.false_eq_true, if_false] at h
  by_cases hnumeric : (m.isFileVersion line || !declaresSemantic m upTo) = true
  · rw [if_pos hnumeric, ho.versionPart, Template.numeric] at h
    by_cases hawaits : Template.awaitsPart line = true
    · rw [if_pos hawaits] at h
      exact absurd h (by simp)
    · rw [if_neg hawaits] at h
      exact Or.inl (Option.some.inj h)
  · rw [if_neg hnumeric] at h
    have hvalue (v : Text) : Heavier v (Template.stampMark o.now.stamp (Template.zero v)) :=
      (Template.heavier_zero v).trans (Template.heavier_stampMark o.now.stamp_ne_nil _)
    rw [← Option.some.inj h]
    exact Template.heavier_mapQuoted hvalue line

/-- A logical line gets heavier, or keeps its text. -/
theorem StampedAs.weight_le (ho : o.IsIdle) {upTo : List Group} {g : Group} {out : List Line}
    (h : StampedAs m o upTo g out) :
    weight (Line.join g.lines) ≤ weight (Line.join out) ∧
      (weight (Line.join g.lines) = weight (Line.join out) → out.flatMap Line.text = g.text) := by
  have htext : Heavier g.text (out.flatMap Line.text) := by
    cases hd : g.declares with
    | false =>
      rw [h.kept hd, Group.flatMap_text_lines]
      exact Or.inl rfl
    | true => exact heavier_stampedAt ho (h.stamped hd)
  rw [Line.weight_join, Line.weight_join, Group.flatMap_text_lines, h.endings]
  have hle := htext.le
  refine ⟨by omega, fun heq => ?_⟩
  rcases htext with he | hlt
  · exact he.symm
  · omega

/-- **The file gets heavier, or every line keeps its text.** -/
theorem stampGroups_weight (ho : o.IsIdle) :
    ∀ {gs done : List Group} {s s' : State} {lines : List Line},
      s.semantic = declaresSemantic m done → stampGroups m o s gs = some (lines, s') →
      weight (Line.join (gs.flatMap Group.lines)) ≤ weight (Line.join lines) ∧
        (weight (Line.join (gs.flatMap Group.lines)) = weight (Line.join lines) →
          s'.version = (lastValue m gs).or s.version)
  | [], done, s, s', lines, hs, h => by
    simp only [stampGroups, Option.some.injEq, Prod.mk.injEq] at h
    obtain ⟨rfl, rfl⟩ := h
    exact ⟨Nat.le_refl _, fun _ => rfl⟩
  | g :: gs, done, s, s', lines, hs, h => by
    rw [stampGroups] at h
    obtain ⟨⟨out, s₁⟩, hg, h⟩ := Option.bind_eq_some_iff.1 h
    obtain ⟨⟨rest, s₂⟩, hgs, h⟩ := Option.bind_eq_some_iff.1 h
    simp only [Option.some.injEq, Prod.mk.injEq] at h
    obtain ⟨rfl, rfl⟩ := h
    obtain ⟨hout, hsem, hver⟩ := stampGroup_eq_some hs hg
    obtain ⟨hle, hsame⟩ := hout.weight_le ho
    obtain ⟨hle', hsame'⟩ := stampGroups_weight ho hsem hgs
    rw [List.flatMap_cons, Line.join_append, Line.join_append, weight_append, weight_append]
    refine ⟨by omega, fun heq => ?_⟩
    have htext : out.flatMap Line.text = g.text := hsame (by omega)
    rw [hsame' (by omega), hver, htext, lastValue_cons, Option.or_assoc]
    split <;> rfl

end Stamping

/-- **What is reported of a file that stays as it is**: the value of its last version line that has a
say. -/
theorem stampSource_unchanged {p : Profile} {o : StampOptions} (ho : o.IsIdle) {path : Path}
    {content : Text} {r : Stamped} (h : stampSource p o path (Source.ofText content) = .ok r)
    (hsame : r.content = content) :
    Stamping.lastValue p.markers (p.groups content) = some r.version := by
  obtain ⟨lines, state, hg, hc, hv, -⟩ := stampSource_ofText_eq_ok h
  have hs₀ : ({} : Stamping.State).semantic = Stamping.declaresSemantic p.markers [] := rfl
  have hlines : Line.join ((p.groups content).flatMap Group.lines) = content := by
    rw [Profile.groups, Group.lines_sort, Line.join_split]
  have hversion := (Stamping.stampGroups_weight ho hs₀ hg).2 (by rw [hlines, ← hc, hsame])
  rw [← hv, hversion, Option.or_none]

end Nameplate
