/-
# Logical lines, as a relation

`Grouped` says which logical lines a file has without saying how they are
found: a line that opens no declaration stands for itself, an opening line
takes the next one where declarations go on, and stands for itself where they
do not or where the file ends. There is exactly one such list, and
`Group.sort` finds it (`sort_eq_iff`).

Key definition: `Grouped`.
Key theorem: `Group.sort_eq_iff`.
-/
import Nameplate.Line.Group
import Nameplate.Language
import Nameplate.Proofs.Line.Splitting

namespace Nameplate

/-- The logical lines of a complete list of lines. -/
inductive Grouped (opens : Text → Bool) (joins : Bool) : List Line → List Group → Prop
  | nil : Grouped opens joins [] []
  | other {l : Line} {ls : List Line} {gs : List Group} : opens l.text = false →
      Grouped opens joins ls gs → Grouped opens joins (l :: ls) (.other l :: gs)
  | single {l : Line} {ls : List Line} {gs : List Group} : opens l.text = true →
      (joins = true → ls = []) → Grouped opens joins ls gs →
      Grouped opens joins (l :: ls) (.single l :: gs)
  | pair {a b : Line} {ls : List Line} {gs : List Group} : opens a.text = true → joins = true →
      Grouped opens joins ls gs → Grouped opens joins (a :: b :: ls) (.pair a b :: gs)

namespace Group

variable {opens : Text → Bool} {joins : Bool}

theorem grouped_sort : ∀ ls : List Line, Grouped opens joins ls (sort opens joins false ls)
  | [] => .nil
  | [l] => by
    simp only [sort, Bool.and_false]
    split
    next h => exact .single h (fun _ => rfl) .nil
    next h => exact .other (by simpa using h) .nil
  | l :: next :: rest => by
    have hr := grouped_sort rest
    have hn := grouped_sort (next :: rest)
    rw [sort]
    split
    next h =>
      split
      next hj => exact .pair h hj hr
      next hj => exact .single h (fun hj' => absurd hj' hj) hn
    next h => exact .other (by simpa using h) hn

theorem sort_of_grouped {ls : List Line} {gs : List Group} (h : Grouped opens joins ls gs) :
    sort opens joins false ls = gs := by
  induction h with
  | nil => rfl
  | @other l ls gs ho _ ih =>
    cases ls with
    | nil => simp_all [sort]
    | cons next rest => rw [sort, if_neg (by simp [ho]), ih]
  | @single l ls gs ho hj _ ih =>
    cases ls with
    | nil => simp_all [sort]
    | cons next rest =>
      have hj' : ¬ joins = true := fun h => by simpa using hj h
      rw [sort, if_pos ho, if_neg hj', ih]
  | pair ho hj _ ih => rw [sort, if_pos ho, if_pos hj, ih]

theorem sort_cons_other {l : Line} (h : opens l.text = false) (ls : List Line) :
    sort opens joins false (l :: ls) = .other l :: sort opens joins false ls := by
  cases ls <;> simp [sort, h]

theorem sort_cons_pair {a : Line} (h : opens a.text = true) (b : Line) (ls : List Line) :
    sort opens true false (a :: b :: ls) = .pair a b :: sort opens true false ls := by
  rw [sort, if_pos h, if_pos rfl]

/-- **Sorting finds the logical lines, and there are no others.** -/
theorem sort_eq_iff {ls : List Line} {gs : List Group} :
    sort opens joins false ls = gs ↔ Grouped opens joins ls gs :=
  ⟨fun h => h ▸ grouped_sort ls, sort_of_grouped⟩

end Group

/-- The logical line of a line, where no declaration goes on to the next one. -/
def Group.ofLine (opens : Text → Bool) (l : Line) : Group :=
  if opens l.text then .single l else .other l

@[simp] theorem Group.declares_ofLine (opens : Text → Bool) (x : Line) :
    (ofLine opens x).declares = opens x.text := by
  unfold ofLine
  cases h : opens x.text <;> rfl

@[simp] theorem Group.text_ofLine (opens : Text → Bool) (x : Line) :
    (ofLine opens x).text = x.text := by
  unfold ofLine
  split <;> rfl

theorem Group.sort_eq_map (opens : Text → Bool) : ∀ ls : List Line,
    sort opens false false ls = ls.map (ofLine opens)
  | [] => rfl
  | [l] => by
    simp only [sort, Bool.and_false, List.map_cons, List.map_nil, ofLine]
    split <;> rfl
  | l :: next :: rest => by
    have ih := sort_eq_map opens (next :: rest)
    rw [sort, List.map_cons, ← ih, ofLine]
    split <;> simp

/-- The logical lines that stamping sees in a text. -/
def Profile.groups (p : Profile) (content : Text) : List Group :=
  Group.sort p.declaresVersion p.joinsNextLine false (Line.split content)

theorem Profile.grouped (p : Profile) (content : Text) :
    Grouped p.declaresVersion p.joinsNextLine (Line.split content) (p.groups content) :=
  Group.grouped_sort _

theorem Profile.groups_eq_map {p : Profile} (hp : p.joinsNextLine = false) (content : Text) :
    p.groups content = (Line.split content).map (Group.ofLine p.declaresVersion) := by
  rw [groups, hp, Group.sort_eq_map]

end Nameplate
