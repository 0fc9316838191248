/-
# Readers that undo a writer

A reader takes a value off the beginning of a text and hands on what follows.
`Reads read? print` says that it accepts just what `print` writes, with
anything behind it: it finds the value that was written, and where nothing was
written it finds nothing. A written form that is read in this sense is
unambiguous, and a format is decoded by giving one such reader for each of its
parts: readers in this sense can be put one after the other (`readPair?`),
behind a fixed text (`readAfter?`), and made to yield a record in place of its
fields (`readAs?`). `readWhole?` reads a text to its end.

A list is written item by item up to a text that ends it, and a section is
left out, with another text in its place, when there is nothing to list. Both
are read back as long as an item cannot be taken for the end, and the opening
of a section not for its absence.

Key definitions: `Text.Reads`, `Text.readUntil?`, `Text.readSection?`.
Key theorems: `Text.Reads.readUntil`, `Text.Reads.readSection`,
`Text.Reads.readWhole?_eq_some_iff`.
-/
import Mathlib.Data.List.Basic
import Mathlib.Logic.Equiv.Defs
import Nameplate.Text

namespace Nameplate
namespace Text

variable {α β : Type}

/-- The reader accepts just what `print` writes, and hands on what follows. -/
def Reads (read? : Text → Option (α × Text)) (print : α → Text) : Prop :=
  ∀ t a rest, read? t = some (a, rest) ↔ t = print a ++ rest

/-- The value behind a fixed text. -/
def readAfter? (opening : Text) (read? : Text → Option (α × Text)) (t : Text) :
    Option (α × Text) :=
  (opening.isPrefixOf? t).bind read?

/-- One value and then another. -/
def readPair? (first? : Text → Option (α × Text)) (second? : Text → Option (β × Text)) (t : Text) :
    Option ((α × β) × Text) := do
  let (a, t) ← first? t
  let (b, t) ← second? t
  return ((a, b), t)

/-- The value that stands for another one. -/
def readAs? (e : α ≃ β) (read? : Text → Option (α × Text)) (t : Text) : Option (β × Text) :=
  (read? t).map fun (a, t) => (e a, t)

/-- Values up to a text that ends them. -/
def readUntil? (read? : Text → Option (α × Text)) (stop t : Text) : Option (List α × Text) :=
  match stop.isPrefixOf? t with
  | some rest => some ([], rest)
  | none =>
    match read? t with
    | none => none
    | some (a, rest) =>
      if rest.length < t.length then
        (readUntil? read? stop rest).map fun (as, rest) => (a :: as, rest)
      else none
  termination_by t.length

/-- A list that an opening announces, or another text in place of an empty one. -/
def readSection? (absent opening : Text) (read? : Text → Option (List α × Text)) (t : Text) :
    Option (List α × Text) :=
  match absent.isPrefixOf? t with
  | some rest => some ([], rest)
  | none => (readAfter? opening read? t).filter fun (as, _) => !as.isEmpty

/-- The value of all of a text, but for what closes it. -/
def readWhole? (read? : Text → Option (α × Text)) (closing t : Text) : Option α :=
  match read? t with
  | some (a, rest) => if rest = closing then some a else none
  | none => none

theorem isPrefixOf?_append (m rest : Text) : m.isPrefixOf? (m ++ rest) = some rest :=
  List.isPrefixOf?_eq_some_iff_append_eq.2 rfl

theorem not_prefix_of_isPrefixOf {m t : Text} (h : m.isPrefixOf t = false) : ¬ m <+: t := by
  rw [← List.isPrefixOf_iff_prefix, h]
  exact Bool.false_ne_true

theorem isPrefixOf?_eq_none {m t : Text} (h : ¬ m <+: t) : m.isPrefixOf? t = none := by
  cases hp : m.isPrefixOf? t with
  | none => rfl
  | some rest => exact absurd ⟨rest, List.append_eq_of_isPrefixOf?_eq_some hp⟩ h

namespace Reads

section

variable {read? : Text → Option (α × Text)} {print : α → Text}

theorem congr (h : Reads read? print) {print' : α → Text} (he : ∀ a, print a = print' a) :
    Reads read? print' := by
  obtain rfl : print = print' := funext he
  exact h

theorem readAfter (h : Reads read? print) (opening : Text) :
    Reads (readAfter? opening read?) fun a => opening ++ print a := by
  intro t a rest
  rw [readAfter?, Option.bind_eq_some_iff]
  constructor
  · rintro ⟨t', hopen, ht⟩
    rw [← List.append_eq_of_isPrefixOf?_eq_some hopen, (h t' a rest).1 ht, List.append_assoc]
  · intro ht
    refine ⟨print a ++ rest, ?_, (h _ a rest).2 rfl⟩
    rw [ht, List.append_assoc, isPrefixOf?_append]

theorem readPair {second? : Text → Option (β × Text)} {print' : β → Text} (h : Reads read? print)
    (h' : Reads second? print') :
    Reads (readPair? read? second?) fun v => print v.1 ++ print' v.2 := by
  rintro t ⟨a, b⟩ rest
  constructor
  · intro ht
    obtain ⟨⟨a', t₁⟩, ha, ht⟩ := Option.bind_eq_some_iff.1 ht
    obtain ⟨⟨b', t₂⟩, hb, ht⟩ := Option.bind_eq_some_iff.1 ht
    simp only [Option.pure_def, Option.some.injEq, Prod.mk.injEq] at ht
    obtain ⟨⟨rfl, rfl⟩, rfl⟩ := ht
    rw [(h t a' t₁).1 ha, (h' t₁ b' t₂).1 hb, List.append_assoc]
  · intro ht
    have ha : read? t = some (a, print' b ++ rest) := (h _ _ _).2 (by rw [ht, List.append_assoc])
    have hb : second? (print' b ++ rest) = some (b, rest) := (h' _ _ _).2 rfl
    simp [readPair?, ha, hb]

theorem readAs (h : Reads read? print) (e : α ≃ β) :
    Reads (readAs? e read?) fun b => print (e.symm b) := by
  intro t b rest
  rw [← h t (e.symm b) rest, readAs?, Option.map_eq_some_iff]
  constructor
  · rintro ⟨⟨a, t'⟩, ha, he⟩
    simp only [Prod.mk.injEq] at he
    obtain ⟨rfl, rfl⟩ := he
    rw [e.symm_apply_apply, ha]
  · intro hb
    exact ⟨_, hb, by simp⟩

theorem readWhole?_eq_some_iff (h : Reads read? print) (closing t : Text) (a : α) :
    readWhole? read? closing t = some a ↔ t = print a ++ closing := by
  rw [← h t a, readWhole?]
  cases hr : read? t with
  | none => simp
  | some v =>
    obtain ⟨b, rest⟩ := v
    by_cases hrest : rest = closing <;> simp [hrest]

/-! ### Lists -/

theorem readUntil?_print (h : Reads read? print) {stop : Text}
    (hstop : ∀ a rest, ¬ stop <+: print a ++ rest) : ∀ (as : List α) (rest : Text),
      readUntil? read? stop (as.flatMap print ++ stop ++ rest) = some (as, rest)
  | [], rest => by
    rw [List.flatMap_nil, List.nil_append, readUntil?, isPrefixOf?_append]
  | a :: as, rest => by
    have ih := h.readUntil?_print hstop as rest
    -- an item is never empty, for the end would begin with it
    have hpos : 0 < (print a).length := by
      refine List.length_pos_iff.2 fun he => hstop a stop ?_
      rw [he]
      exact List.prefix_rfl
    rw [List.flatMap_cons, List.append_assoc, List.append_assoc, ← List.append_assoc _ stop rest]
    generalize as.flatMap print ++ stop ++ rest = tail at ih ⊢
    have ha := (h (print a ++ tail) a tail).2 rfl
    rw [readUntil?, isPrefixOf?_eq_none (hstop a tail)]
    simp only [ha]
    rw [if_pos (by rw [List.length_append]; omega), ih]
    rfl

theorem eq_of_readUntil? (h : Reads read? print) {stop t : Text} {as : List α} {rest : Text}
    (ht : readUntil? read? stop t = some (as, rest)) : t = as.flatMap print ++ stop ++ rest := by
  fun_induction Text.readUntil? read? stop t generalizing as with
  | case1 t rest' hp =>
    simp only [Option.some.injEq, Prod.mk.injEq] at ht
    obtain ⟨rfl, rfl⟩ := ht
    rw [List.flatMap_nil, List.nil_append, List.append_eq_of_isPrefixOf?_eq_some hp]
  | case2 => simp at ht
  | case3 t hp a rest' hr hlt ih =>
    obtain ⟨⟨as', rest''⟩, hmore, he⟩ := Option.map_eq_some_iff.1 ht
    simp only [Prod.mk.injEq] at he
    obtain ⟨rfl, rfl⟩ := he
    rw [(h t a rest').1 hr, ih hmore, List.flatMap_cons]
    simp only [List.append_assoc]
  | case4 => simp at ht

/-- **A list is read back** when nothing that begins with an item can be taken for the end. -/
theorem readUntil (h : Reads read? print) (stop : Text)
    (hstop : ∀ a rest, ¬ stop <+: print a ++ rest) :
    Reads (readUntil? read? stop) fun as => as.flatMap print ++ stop :=
  fun _ as rest => ⟨h.eq_of_readUntil?, fun he => he ▸ h.readUntil?_print hstop as rest⟩

end

/-- **A section is read back**, be it there or not, when its opening cannot be taken for its
absence. -/
theorem readSection {read? : Text → Option (List α × Text)} {print : List α → Text}
    (h : Reads read? print) (absent opening : Text)
    (habsent : ∀ rest, ¬ absent <+: opening ++ rest) :
    Reads (readSection? absent opening read?) fun as =>
      if as = [] then absent else opening ++ print as := by
  intro t as rest
  have hopen := h.readAfter opening t
  unfold readSection?
  beta_reduce
  constructor
  · intro ht
    split at ht
    next rest' hp =>
      simp only [Option.some.injEq, Prod.mk.injEq] at ht
      obtain ⟨rfl, rfl⟩ := ht
      exact (List.append_eq_of_isPrefixOf?_eq_some hp).symm
    next =>
      obtain ⟨hr, hne⟩ := Option.filter_eq_some_iff.1 ht
      rw [if_neg (by simpa using hne), (hopen as rest).1 hr]
  · intro ht
    by_cases hnil : as = []
    · rw [ht, if_pos hnil, isPrefixOf?_append, hnil]
    · rw [if_neg hnil] at ht
      have hr := (hopen as rest).2 ht
      rw [ht, List.append_assoc] at hr ⊢
      rw [isPrefixOf?_eq_none (habsent _), hr]
      simp [hnil]

end Reads
end Text
end Nameplate
