/-
# Strict readings, as a relation

`StrictReading` says what a strict reading of physical lines is without saying
how it goes about it: they are all texts, and the reading ends as the source
does; or it stops at the first line that is no text and names it. Every list
of physical lines has exactly one such reading, and a source delivers it
(`Source.strict_eq_iff`).

A reading that was cut short may end in a declaration whose second line is
missing. It is no logical line then. The logical lines are thus those that the
lines would have if the file ended with them, without a declaration that is
not whole (`Group.sort_eq_filter`); and only the last one can be that, so the
logical lines before one that is whole are whole too
(`Grouped.filter_isWhole_eq_iff`).

Key definitions: `StrictReading`, `Group.isWhole`.
Key theorems: `Source.strict_eq_iff`, `Group.sort_eq_filter`,
`Grouped.filter_isWhole_eq_iff`.
-/
import Nameplate.Proofs.Line.Grouping

namespace Nameplate

/-- The strict readings of physical lines after which the source ends with `last`. -/
inductive StrictReading (last : Option ReadFault) : List PhysicalLine → Reading → Prop
  | whole (ls : List Line) : StrictReading last (ls.map Line.encoded) ⟨ls, last⟩
  | upTo (ls : List Line) {l : PhysicalLine} {fault : Utf8.Fault} (rest : List PhysicalLine) :
      Utf8.decode l.text = .error fault →
      StrictReading last (ls.map Line.encoded ++ l :: rest)
        ⟨ls, some (.notText (ls.length + 1) fault)⟩

/-- A strict reading ends as the source does, or in the first line that is no text. -/
theorem StrictReading.failure_cases {last : Option ReadFault} {ls : List PhysicalLine} {r : Reading}
    (h : StrictReading last ls r) :
    r.failure = last ∨ ∃ (n : Nat) (l : PhysicalLine) (fault : Utf8.Fault), ls[n]? = some l ∧
      Utf8.decode l.text = .error fault ∧ r.failure = some (.notText (n + 1) fault) := by
  cases h with
  | whole texts => exact .inl rfl
  | @upTo texts l fault rest hf =>
    have hget : (texts.map Line.encoded ++ l :: rest)[texts.length]? = some l := by
      rw [List.getElem?_append_right (by simp), List.length_map, Nat.sub_self]
      rfl
    exact .inr ⟨_, l, fault, hget, hf, rfl⟩

namespace Source

variable {last : Option ReadFault}

theorem strictFrom_append_encoded (n : Nat) (ls : List Line) (rest : List PhysicalLine) :
    strictFrom last n (ls.map Line.encoded ++ rest) =
      { strictFrom last (n + ls.length) rest with
        lines := ls ++ (strictFrom last (n + ls.length) rest).lines } := by
  induction ls generalizing n with
  | nil => rfl
  | cons l ls ih =>
    rw [List.map_cons, List.cons_append, strictFrom]
    simp only [Line.encoded, Utf8.decode_encode]
    rw [ih (n + 1), show n + 1 + ls.length = n + (l :: ls).length by rw [List.length_cons]; omega]
    rfl

theorem exists_strictReading (last : Option ReadFault) :
    ∀ ls : List PhysicalLine, ∃ r, StrictReading last ls r
  | [] => ⟨_, .whole []⟩
  | l :: ls => by
    cases hd : Utf8.decode l.text with
    | error fault => exact ⟨_, .upTo [] ls hd⟩
    | ok t =>
      have hl : l = Line.encoded ⟨t, l.ending⟩ := by
        rw [Line.encoded, Utf8.encode_of_decode hd]
      rw [hl]
      obtain ⟨r, hr⟩ := exists_strictReading last ls
      cases hr with
      | whole texts => exact ⟨_, .whole (⟨t, l.ending⟩ :: texts)⟩
      | upTo texts rest hf => exact ⟨_, .upTo (⟨t, l.ending⟩ :: texts) rest hf⟩

theorem strictFrom_of_strictReading {ls : List PhysicalLine} {r : Reading}
    (h : StrictReading last ls r) : strictFrom last 1 ls = r := by
  cases h with
  | whole texts => exact strictFrom_encoded last 1 texts
  | @upTo texts l fault rest hf =>
    rw [strictFrom_append_encoded, strictFrom]
    simp only [hf, List.append_nil, Nat.add_comm]

theorem strictReading_strictFrom (ls : List PhysicalLine) :
    StrictReading last ls (strictFrom last 1 ls) := by
  obtain ⟨r, hr⟩ := exists_strictReading last ls
  rwa [strictFrom_of_strictReading hr]

/-- **A source delivers the strict reading of its lines, and there is no other.** -/
theorem strict_eq_iff {s : Source} {r : Reading} : s.strict = r ↔ StrictReading s.fault s.lines r :=
  ⟨fun h => h ▸ strictReading_strictFrom s.lines, strictFrom_of_strictReading⟩

end Source

/-! ### Declarations that are cut short -/

namespace Group

variable {opens : Text → Bool} {joins : Bool}

/-- Whether all of a logical line was read: where declarations go on to the next line and the
reading was cut short, a declaration on one line was not. -/
def isWhole (joins cut : Bool) : Group → Bool
  | .single _ => !(joins && cut)
  | .other _ | .pair _ _ => true

/-- **The logical lines of a reading** are those of its lines that were read as a whole. -/
theorem sort_eq_filter (cut : Bool) : ∀ ls : List Line,
    sort opens joins cut ls = (sort opens joins false ls).filter (isWhole joins cut)
  | [] => rfl
  | [l] => by
    rw [sort, sort]
    split
    · cases joins <;> cases cut <;> rfl
    · rfl
  | l :: next :: rest => by
    have hr := sort_eq_filter cut rest
    have hn := sort_eq_filter cut (next :: rest)
    rw [sort, sort]
    split
    · split
      · rw [List.filter_cons_of_pos rfl, hr]
      next hj => rw [List.filter_cons_of_pos (by simp [isWhole, hj]), hn]
    · rw [List.filter_cons_of_pos rfl, hn]

end Group

section Whole

variable {opens : Text → Bool} {joins cut : Bool} {ls : List Line} {gs before after : List Group}
  {g : Group}

/-- A declaration that is cut short comes last. -/
theorem Grouped.isWhole_of_mem (h : Grouped opens joins ls gs) (he : gs = before ++ g :: after) :
    ∀ b ∈ before, Group.isWhole joins cut b = true := by
  induction h generalizing before with
  | nil => simp at he
  | @other l ls gs ho _ ih =>
    cases before with
    | nil => simp
    | cons b before =>
      obtain ⟨rfl, hgs⟩ := List.cons.inj he
      exact List.forall_mem_cons.2 ⟨rfl, ih hgs⟩
  | @single l ls gs ho hj hg ih =>
    cases before with
    | nil => simp
    | cons b before =>
      obtain ⟨rfl, hgs⟩ := List.cons.inj he
      refine List.forall_mem_cons.2 ⟨?_, ih hgs⟩
      cases joins with
      | false => rfl
      | true =>
        -- nothing is left for `g` to be made of
        obtain rfl := hj rfl
        cases hg
        simp at he
  | @pair a b ls gs ho hj _ ih =>
    cases before with
    | nil => simp
    | cons b before =>
      obtain ⟨rfl, hgs⟩ := List.cons.inj he
      exact List.forall_mem_cons.2 ⟨rfl, ih hgs⟩

/-- What stands before a logical line that was read as a whole was read as a whole. -/
theorem Grouped.filter_isWhole_eq_iff (h : Grouped opens joins ls gs) :
    (∃ after, gs.filter (Group.isWhole joins cut) = before ++ g :: after) ↔
      Group.isWhole joins cut g = true ∧ ∃ after, gs = before ++ g :: after := by
  constructor
  · rintro ⟨after, he⟩
    obtain ⟨l₁, l₂, rfl, rfl, h₂⟩ := List.filter_eq_append_iff.1 he
    obtain ⟨m₁, m₂, rfl, hm, hg, rfl⟩ := List.filter_eq_cons_iff.1 h₂
    have hall : ∀ b ∈ l₁ ++ m₁, Group.isWhole joins cut b = true :=
      h.isWhole_of_mem (List.append_assoc l₁ m₁ _).symm
    have hm₁ : m₁ = [] := List.eq_nil_iff_forall_not_mem.2 fun b hb =>
      hm b hb (hall b (List.mem_append_right l₁ hb))
    subst hm₁
    rw [List.filter_eq_self.2 fun b hb => hall b (List.mem_append_left _ hb)]
    exact ⟨hg, m₂, rfl⟩
  · rintro ⟨hg, after, rfl⟩
    refine ⟨after.filter (Group.isWhole joins cut), ?_⟩
    rw [List.filter_append, List.filter_cons_of_pos hg,
      List.filter_eq_self.2 (h.isWhole_of_mem rfl)]

end Whole
end Nameplate
