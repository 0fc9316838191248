/-
# Files directly in a directory

A path is seen from a directory by joining the two. What the joined path leads
along are the components of the directory and then those of the path, wherever
separators stand between them (`Path.steps_join`). A name, which has no separator
and is no matter of dots, adds itself alone, however the directory is written
(`Path.components_join`).

That a path leads to a file directly in a directory can be said of its text, which
is then the directory and a name (`Path.IsNamedIn`), or of its components
(`Path.IsChild`), where repeated separators and `.` do not count. What is named in
a directory is directly in it, and not the other way round. Neither resolves `..`.

Key definitions: `Path.IsName`, `Path.IsNamedIn`, `Path.IsChild`.
Key theorems: `Path.components_join`, `Path.steps_join`, `Path.isChild_join_iff`.
-/
import Nameplate.Path

namespace Nameplate
namespace Path

variable {dir name : Text}

/-! ### Names and directories -/

/-- A text that leads from a directory to a file directly in it. -/
structure IsName (name : Text) : Prop where
  ne_nil : name ≠ []
  separator_notMem : '/' ∉ name
  ne_here : name ≠ ['.']
  ne_up : name ≠ ['.', '.']

theorem IsName.not_isAbsolute (h : IsName name) : isAbsolute name = false := by
  cases name with
  | nil => rfl
  | cons c name =>
    have hc : '/' ≠ c := fun he => h.separator_notMem (he ▸ List.mem_cons_self)
    simp [isAbsolute, hc.symm]

/-- The path is written as the directory and one name in it. -/
def IsNamedIn (dir path : Path) : Prop := ∃ name, IsName name ∧ path = join dir name

/-- The components that a path leads along. A `.` stays where it is, also at the beginning. -/
def steps (p : Path) : List Component := (components p).filter (· ≠ .here)

/-- The path leads to a file directly in the directory, however the two are written; `..` is not
resolved. -/
def IsChild (dir path : Path) : Prop := ∃ name, steps path = steps dir ++ [.name name]

theorem IsChild.dropLast_steps {path : Path} (h : IsChild dir path) :
    (steps path).dropLast = steps dir := by
  obtain ⟨name, he⟩ := h
  rw [he, List.dropLast_concat]

example : IsChild "pkg" "pkg/./A" := ⟨['A'], by decide⟩

/-! ### Joining a relative path -/

theorem join_of_not_isAbsolute (dir : Path) {p : Path} (h : isAbsolute p = false) :
    join dir p = if dir = [] ∨ dir.getLast? = some '/' then dir ++ p else dir ++ '/' :: p := by
  simp [join, h]

/-- From one directory, different relative paths are written differently. -/
theorem join_injective {p q : Path} (hp : isAbsolute p = false) (hq : isAbsolute q = false)
    (h : join dir p = join dir q) : p = q := by
  rw [join_of_not_isAbsolute dir hp, join_of_not_isAbsolute dir hq] at h
  split at h
  · exact List.append_cancel_left h
  · exact List.tail_eq_of_cons_eq (List.append_cancel_left h)

theorem isAbsolute_join (dir : Path) {p : Path} (h : isAbsolute p = false) :
    isAbsolute (join dir p) = isAbsolute dir := by
  rw [join_of_not_isAbsolute dir h]
  cases dir with
  | nil => exact h
  | cons c dir => split <;> rfl

/-! ### What lies between the separators -/

/-- The components of a path without what it begins with. -/
def inner (p : Path) : List Component := (p.splitOn '/').filterMap component?

theorem components_eq (p : Path) : components p = lead p ++ inner p := rfl

theorem component?_eq_none_iff (piece : Text) :
    component? piece = none ↔ piece = [] ∨ piece = ['.'] := by
  unfold component?
  by_cases h : piece = [] ∨ piece = ['.']
  · simp [h]
  · by_cases hup : piece = ['.', '.'] <;> simp_all

theorem component?_ne_here (piece : Text) : component? piece ≠ some .here := by
  unfold component?
  split
  · nofun
  · split <;> nofun

theorem inner_of_notMem {piece : Text} (h : '/' ∉ piece) :
    inner piece = (component? piece).toList := by
  rw [inner, List.splitOn_eq_singleton h]
  cases hpiece : component? piece <;> simp [hpiece]

theorem IsName.inner_eq (h : IsName name) : inner name = [.name name] := by
  rw [inner_of_notMem h.separator_notMem]
  simp [component?, h.ne_nil, h.ne_here, h.ne_up]

theorem inner_append_separator (dir rest : Text) :
    inner (dir ++ '/' :: rest) = inner dir ++ inner rest := by
  rw [inner, List.splitOn_append_cons_self, List.filterMap_append]
  rfl

theorem inner_join (dir : Path) {p : Path} (h : isAbsolute p = false) :
    inner (join dir p) = inner dir ++ inner p := by
  rw [join_of_not_isAbsolute dir h]
  by_cases hdir : dir = []
  · subst hdir
    rfl
  by_cases hlast : dir.getLast? = some '/'
  · -- the separator that ends the directory does not count
    obtain ⟨above, rfl⟩ := List.getLast?_eq_some_iff.1 hlast
    have habove : inner (above ++ ['/']) = inner above := by
      rw [inner_append_separator]
      exact List.append_nil _
    rw [if_pos (Or.inr hlast), habove, List.append_assoc, List.singleton_append,
      inner_append_separator]
  · rw [if_neg (by simp [hdir, hlast]), inner_append_separator]

/-! ### What a path begins with -/

/-- It is settled before the first separator. -/
theorem lead_append_separator (dir rest : Text) :
    lead (dir ++ '/' :: rest) = lead (dir ++ ['/']) := by
  rcases dir with _ | ⟨c, _ | ⟨d, dir⟩⟩
  · rfl
  · simp [lead, isAbsolute]
  · simp [lead, isAbsolute]

theorem lead_append_last {dir : Text} (h : dir ≠ []) : lead (dir ++ ['/']) = lead dir := by
  rcases dir with _ | ⟨c, _ | ⟨d, dir⟩⟩
  · exact absurd rfl h
  · simp [lead, isAbsolute, @eq_comm Char '.' c]
  · simp [lead, isAbsolute]

theorem lead_join {dir p : Path} (hdir : dir ≠ []) (h : isAbsolute p = false) :
    lead (join dir p) = lead dir := by
  rw [join_of_not_isAbsolute dir h]
  by_cases hlast : dir.getLast? = some '/'
  · obtain ⟨above, rfl⟩ := List.getLast?_eq_some_iff.1 hlast
    rw [if_pos (Or.inr hlast), List.append_assoc, List.singleton_append, lead_append_separator]
  · rw [if_neg (by simp [hdir, hlast]), lead_append_separator, lead_append_last hdir]

/-! ### The components of a joined path -/

/-- **A name adds one component to those of a directory**, whether that is written with a separator
at its end or not. -/
theorem components_join (dir : Path) (h : IsName name) :
    components (join dir name) = components dir ++ [.name name] := by
  rw [components_eq, components_eq, inner_join dir h.not_isAbsolute, h.inner_eq]
  by_cases hdir : dir = []
  · subst hdir
    have hprefix : ['.', '/'].isPrefixOf name = false := by
      rw [Bool.eq_false_iff, ne_eq, List.isPrefixOf_iff_prefix]
      exact fun hp => h.separator_notMem (hp.subset (by simp))
    have hlead : lead name = [] := by
      simp [lead, h.not_isAbsolute, h.ne_here, hprefix]
    rw [join_of_not_isAbsolute _ h.not_isAbsolute, if_pos (Or.inl rfl), List.nil_append, hlead]
    rfl
  · rw [lead_join hdir h.not_isAbsolute, List.append_assoc]

theorem steps_eq (p : Path) :
    steps p = (if isAbsolute p then [.root] else []) ++ inner p := by
  have hinner : (inner p).filter (· ≠ .here) = inner p := by
    refine List.filter_eq_self.2 fun c hc => ?_
    obtain ⟨piece, -, hpiece⟩ := List.mem_filterMap.1 hc
    have hne : c ≠ .here := fun he => component?_ne_here piece (he ▸ hpiece)
    simpa using hne
  have hlead : (lead p).filter (· ≠ .here) = if isAbsolute p then [.root] else [] := by
    unfold lead
    split
    · rfl
    · split <;> rfl
  rw [steps, components_eq, List.filter_append, hinner, hlead]

/-- **A relative path adds its steps to those of a directory.** -/
theorem steps_join (dir : Path) {p : Path} (h : isAbsolute p = false) :
    steps (join dir p) = steps dir ++ inner p := by
  rw [steps_eq, steps_eq, isAbsolute_join dir h, inner_join dir h, List.append_assoc]

/-- A relative path leads from a directory to a file directly in it just where it has one component,
a name. -/
theorem isChild_join_iff (dir : Path) {p : Path} (h : isAbsolute p = false) :
    IsChild dir (join dir p) ↔ ∃ name, inner p = [.name name] := by
  simp only [IsChild, steps_join dir h, List.append_cancel_left_eq]

/-- What is named in a directory is directly in it. -/
theorem IsNamedIn.isChild {path : Path} (h : IsNamedIn dir path) : IsChild dir path := by
  obtain ⟨name, hname, rfl⟩ := h
  exact (isChild_join_iff dir hname.not_isAbsolute).2 ⟨name, hname.inner_eq⟩

end Path
end Nameplate
