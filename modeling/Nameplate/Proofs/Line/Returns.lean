/-
# Carriage returns

In a file whose carriage returns all stand before a line feed, every one of
them belongs to the ending of a line (`returnsEndLines_join`): none is part of
a line's text. Text that is cut elsewhere can then not end in a carriage
return that the next ending would swallow.

Key definitions: `Text.ReturnsEndLines`, `Line.Tidy`.
Key theorems: `Line.returnsEndLines_join`, `Line.tidy_cons`.
-/
import Nameplate.Proofs.Line.Splitting

namespace Nameplate

namespace Text

/-- Every carriage return has a line feed after it. -/
def ReturnsEndLines (t : Text) : Prop :=
  ∀ rest, '\r' :: rest <:+ t → rest.head? = some '\n'

theorem returnsEndLines_nil : ReturnsEndLines [] := fun rest h =>
  absurd (List.suffix_nil.1 h) (List.cons_ne_nil _ rest)

theorem returnsEndLines_cons {c : Char} {t : Text} :
    ReturnsEndLines (c :: t) ↔ (c = '\r' → t.head? = some '\n') ∧ ReturnsEndLines t := by
  constructor
  · intro h
    refine ⟨fun hc => h t (hc ▸ List.suffix_rfl), fun rest hr => h rest ?_⟩
    exact hr.trans (List.suffix_cons c t)
  · intro ⟨hc, ht⟩ rest hr
    rcases List.suffix_cons_iff.1 hr with he | hr
    · obtain ⟨rfl, rfl⟩ := List.cons.inj he
      exact hc rfl
    · exact ht rest hr

theorem returnsEndLines_append {a : Text} (h : '\r' ∉ a) (t : Text) :
    ReturnsEndLines (a ++ t) ↔ ReturnsEndLines t := by
  induction a with
  | nil => rfl
  | cons c a ih =>
    simp only [List.mem_cons, not_or] at h
    rw [List.cons_append, returnsEndLines_cons, ih h.2]
    exact and_iff_right fun hc => absurd hc.symm h.1

theorem returnsEndLines_of_notMem {t : Text} (h : '\r' ∉ t) : ReturnsEndLines t := by
  have ht := (returnsEndLines_append h []).2 returnsEndLines_nil
  rwa [List.append_nil] at ht

/-- A carriage return within a line can only be the last character of it. -/
theorem ReturnsEndLines.last_of_mem {a t : Text} (h : ReturnsEndLines (a ++ t)) (hn : '\n' ∉ a)
    (hr : '\r' ∈ a) : a.getLast? = some '\r' ∧ t.head? = some '\n' := by
  induction a with
  | nil => exact absurd hr List.not_mem_nil
  | cons c a ih =>
    simp only [List.mem_cons, not_or] at hn
    obtain ⟨hc, ht⟩ := returnsEndLines_cons.1 h
    by_cases ha : '\r' ∈ a
    · obtain ⟨hlast, hhead⟩ := ih ht hn.2 ha
      refine ⟨?_, hhead⟩
      rw [List.getLast?_cons, hlast]
      rfl
    · obtain rfl : '\r' = c := (List.mem_cons.1 hr).resolve_right ha
      have hhead := hc rfl
      cases a with
      | nil => exact ⟨rfl, hhead⟩
      | cons d a => exact absurd (List.mem_cons.2 (Or.inl (by simpa using hhead.symm))) hn.2

end Text

namespace Line

open Text

theorem returnsEndLines_ending (e : Ending) (t : Text) :
    ReturnsEndLines (e.text ++ t) ↔ ReturnsEndLines t := by
  cases e with
  | lineFeed => exact returnsEndLines_append (by decide) t
  | carriageReturnLineFeed =>
    show ReturnsEndLines ('\r' :: '\n' :: t) ↔ _
    rw [returnsEndLines_cons, returnsEndLines_cons]
    simp
  | none => rfl

/-- **Carriage returns are part of endings only.** -/
theorem returnsEndLines_join : ∀ {ls : List Line}, Proper ls →
    (ReturnsEndLines (join ls) ↔ ∀ l ∈ ls, '\r' ∉ l.text)
  | [], _ => by simpa using returnsEndLines_nil
  | l :: ls, ⟨hl, hlast, hls⟩ => by
    have ih := returnsEndLines_join hls
    rw [join_cons, whole, List.append_assoc, List.forall_mem_cons]
    by_cases hr : '\r' ∈ l.text
    · refine iff_of_false (fun h => ?_) (fun h => h.1 hr)
      obtain ⟨hend, hhead⟩ := h.last_of_mem hl.lineFeed_notMem hr
      cases he : l.ending with
      | lineFeed => exact hl.noReturn he hend
      | carriageReturnLineFeed => simp [he, Ending.text] at hhead
      | none => simp [he, Ending.text, hlast he] at hhead
    · rw [returnsEndLines_append hr, returnsEndLines_ending, ih, and_iff_right hr]

/-! ### Lines without stray carriage returns -/

/-- The lines of a file whose carriage returns are all part of endings. -/
def Tidy (ls : List Line) : Prop := Proper ls ∧ ∀ l ∈ ls, '\r' ∉ l.text

theorem tidy_cons {l : Line} {ls : List Line} :
    Tidy (l :: ls) ↔ ('\n' ∉ l.text ∧ '\r' ∉ l.text) ∧
      (l.ending = .none → l.text ≠ [] ∧ ls = []) ∧ Tidy ls := by
  constructor
  · rintro ⟨⟨hl, hlast, hls⟩, hr⟩
    rw [List.forall_mem_cons] at hr
    exact ⟨⟨hl.lineFeed_notMem, hr.1⟩, fun he => ⟨hl.ne_nil he, hlast he⟩, hls, hr.2⟩
  · rintro ⟨⟨hn, hr⟩, hlast, hls, hrs⟩
    have hreturn : l.text.getLast? ≠ some '\r' := fun h => hr (List.mem_of_getLast? h)
    refine ⟨⟨⟨hn, fun _ => hreturn, fun he => (hlast he).1⟩, fun he => (hlast he).2, hls⟩, ?_⟩
    rw [List.forall_mem_cons]
    exact ⟨hr, hrs⟩

theorem tidy_split {content : Text} (h : Text.ReturnsEndLines content) : Tidy (split content) := by
  have hp := proper_split content
  refine ⟨hp, (returnsEndLines_join hp).1 ?_⟩
  rwa [join_split]

end Line
end Nameplate
