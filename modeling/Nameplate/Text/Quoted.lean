/-
# The quoted value of a line

The value of a line is what stands between its first and its last double
quote; quotes in between belong to the value. A line with fewer than two
quotes has no quoted value.

`Quoted` is such a line taken apart, and `split?` takes it apart. `Text.mapQuoted`
puts a new value where the old one was: first and last quote stay where they
are, so the new value is read back whatever it contains (`split?_line`), and
nothing outside it changes.

Key definitions: `Quoted.split?`, `Text.quoted`, `Text.mapQuoted`, `Text.quotedOrAll`.
Key theorems: `Quoted.split?_line`, `Quoted.line_of_split?`.
-/
import Nameplate.Text

namespace Nameplate

/-- A line taken apart at its first and its last double quote. -/
structure Quoted where
  before : Text
  value : Text
  after : Text
  deriving DecidableEq, Repr

namespace Quoted

/-- The line that was taken apart. -/
def line (q : Quoted) : Text := q.before ++ '"' :: (q.value ++ '"' :: q.after)

/-- The texts before and after the last double quote. -/
def splitAtLast? : Text → Option (Text × Text)
  | [] => none
  | c :: rest =>
    match splitAtLast? rest with
    | some (a, b) => some (c :: a, b)
    | none => if c = '"' then some ([], rest) else none

/-- The parts of a line with at least two double quotes. -/
def split? (t : Text) : Option Quoted :=
  match Text.splitAtFirst '"' t with
  | none => none
  | some (before, rest) => (splitAtLast? rest).map fun (value, after) => ⟨before, value, after⟩

theorem splitAtLast?_eq_none_iff (t : Text) : splitAtLast? t = none ↔ '"' ∉ t := by
  induction t with
  | nil => simp [splitAtLast?]
  | cons c rest ih =>
    rw [splitAtLast?]
    cases h : splitAtLast? rest with
    | none =>
      have hr := ih.1 h
      by_cases hc : c = '"'
      · simp [hc]
      · simp [hc, hr, Ne.symm hc]
    | some p =>
      have hr : '"' ∈ rest := by
        cases Decidable.em ('"' ∈ rest) with
        | inl hm => exact hm
        | inr hm => rw [ih.2 hm] at h; simp at h
      simp [hr]

theorem splitAtLast?_append {a b : Text} (h : '"' ∉ b) : splitAtLast? (a ++ '"' :: b) = some (a, b) := by
  induction a with
  | nil => simp [splitAtLast?, (splitAtLast?_eq_none_iff b).2 h]
  | cons c a ih => simp [splitAtLast?, ih]

theorem eq_of_splitAtLast? : ∀ {t a b : Text}, splitAtLast? t = some (a, b) →
    t = a ++ '"' :: b ∧ '"' ∉ b
  | [], _, _, h => by simp [splitAtLast?] at h
  | c :: rest, a, b, h => by
    rw [splitAtLast?] at h
    cases hr : splitAtLast? rest with
    | none =>
      rw [hr] at h
      by_cases hc : c = '"'
      · simp only [hc, if_true, Option.some.injEq, Prod.mk.injEq] at h
        obtain ⟨rfl, rfl⟩ := h
        exact ⟨by simp [hc], (splitAtLast?_eq_none_iff _).1 hr⟩
      · simp [hc] at h
    | some p =>
      obtain ⟨a', b'⟩ := p
      rw [hr] at h
      simp only [Option.some.injEq, Prod.mk.injEq] at h
      obtain ⟨rfl, rfl⟩ := h
      obtain ⟨he, hn⟩ := eq_of_splitAtLast? hr
      exact ⟨by simp [he], hn⟩

/-- A line is what its parts make, and no quote is outside the two that delimit the value. -/
theorem line_of_split? {t : Text} {q : Quoted} (h : split? t = some q) :
    t = q.line ∧ '"' ∉ q.before ∧ '"' ∉ q.after := by
  unfold split? at h
  cases hf : Text.splitAtFirst '"' t with
  | none => simp [hf] at h
  | some p =>
    obtain ⟨before, rest⟩ := p
    rw [hf] at h
    obtain ⟨⟨value, after⟩, hl, rfl⟩ := Option.map_eq_some_iff.1 h
    obtain ⟨ht, hb⟩ := Text.eq_of_splitAtFirst hf
    obtain ⟨hr, ha⟩ := eq_of_splitAtLast? hl
    exact ⟨by simp [line, ht, hr], hb, ha⟩

/-- **The parts are read back whatever the value contains.** -/
theorem split?_line {q : Quoted} (hb : '"' ∉ q.before) (ha : '"' ∉ q.after) :
    split? q.line = some q := by
  simp [split?, line, Text.splitAtFirst_append hb, splitAtLast?_append ha]

end Quoted

/-- The text between the first and the last double quote, empty when there are fewer than two. -/
def Text.quoted (t : Text) : Text :=
  match Quoted.split? t with
  | some q => q.value
  | none => []

/-- The byte offsets of the quoted value. -/
def Text.quotedExtent (t : Text) : Option (Nat × Nat) :=
  (Quoted.split? t).map fun q =>
    let start := Text.byteLength q.before + 1
    (start, start + Text.byteLength q.value)

/-- The quoted value, or all of a line that has none. -/
def Text.quotedOrAll (t : Text) : Text :=
  match Quoted.split? t with
  | some q => q.value
  | none => t

/-- The line with `f` applied to its value, or to all of a line that has none. -/
def Text.mapQuoted (f : Text → Text) (t : Text) : Text :=
  match Quoted.split? t with
  | some q => Quoted.line { q with value := f q.value }
  | none => f t

/-- The new value is the value of the new line, quotes in it included. -/
theorem Text.quoted_mapQuoted {t : Text} {q : Quoted} (h : Quoted.split? t = some q)
    (f : Text → Text) : Text.quoted (Text.mapQuoted f t) = f q.value := by
  obtain ⟨_, hb, ha⟩ := Quoted.line_of_split? h
  have : Quoted.split? (Text.mapQuoted f t) = some { q with value := f q.value } := by
    rw [Text.mapQuoted, h]
    exact Quoted.split?_line hb ha
  simp [Text.quoted, this]

end Nameplate
