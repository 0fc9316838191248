/-
# Writing in a tree

To write a file, a tree makes the directories above it and then puts the file
in its place. Making a directory only adds to a tree. So after a write every
directory is where it was, every path leads where it led, and every file but
the one written holds what it held (`Tree.Keeps`).

Two paths that end in different characters lead to different places, unless
they end in a separator or a dot (`Tree.EndsIn.locate`). That is how a write is
known to spare a file: places are compared after the paths are followed, for
`..` and the working directory take part in that.

Key definitions: `Tree.Keeps`, `Tree.EndsIn`.
Key theorems: `Tree.at?_of_write`, `Tree.locate_of_write`, `Tree.at?_of_write_of_ne`.
-/
import Nameplate.Files.Tree
import Nameplate.Proofs.Files.Frame

namespace Nameplate
namespace Tree

/-! ### What a change keeps -/

/-- The working directory, every directory, and the files at the places that are spared are in `t'`
what they are in `t`. -/
structure Keeps (spared : List Text → Prop) (t t' : Tree) : Prop where
  cwd : t'.cwd = t.cwd
  directory : ∀ {names}, t.node? names = some .directory → t'.node? names = some .directory
  file : ∀ {names content}, spared names → t.node? names = some (.file content) →
    t'.node? names = some (.file content)

variable {spared : List Text → Prop} {t t' t'' : Tree} {names other : List Text} {node : Node}
  {path : Path} {content : Bytes}

theorem Keeps.refl (t : Tree) : Keeps spared t t := ⟨rfl, id, fun _ => id⟩

theorem Keeps.trans (h : Keeps spared t t') (h' : Keeps spared t' t'') : Keeps spared t t'' where
  cwd := h'.cwd.trans h.cwd
  directory hd := h'.directory (h.directory hd)
  file hs hf := h'.file hs (h.file hs hf)

theorem lookup_putNode (nodes : List (List Text × Node)) :
    (putNode names node nodes).lookup other =
      if other = names then some node else nodes.lookup other := by
  induction nodes with
  | nil =>
    by_cases h : other = names
    · simp [putNode, h]
    · have hb : (other == names) = false := by simpa using h
      simp [putNode, List.lookup_cons, h, hb]
  | cons entry rest ih =>
    obtain ⟨n, old⟩ := entry
    by_cases hn : n = names
    · subst hn
      rw [putNode, if_pos rfl]
      by_cases h : other = n
      · simp [h]
      · have hb : (other == n) = false := by simpa using h
        rw [if_neg h, List.lookup_cons, List.lookup_cons, hb]
    · rw [putNode, if_neg hn, List.lookup_cons, List.lookup_cons, ih]
      by_cases h : other = names
      · have hb : (other == n) = false := by simpa [h] using Ne.symm hn
        simp only [hb, if_pos h]
      · simp only [if_neg h]

theorem node?_put (hn : names ≠ []) :
    (t.put names node).node? other = if other = names then some node else t.node? other := by
  unfold node? put
  by_cases ho : other = []
  · subst ho
    rw [if_pos rfl, if_pos rfl, if_neg hn.symm]
  · rw [if_neg ho, if_neg ho, lookup_putNode]

/-- The root is a directory. -/
theorem ne_nil_of_node? (h : t.node? names ≠ some .directory) : names ≠ [] := by
  rintro rfl
  exact h rfl

theorem Keeps.put_directory (h : t.node? names = none) :
    Keeps spared t (t.put names .directory) := by
  have hn : names ≠ [] := ne_nil_of_node? (t := t) (by rw [h]; exact nofun)
  have kept : ∀ {other node}, t.node? other = some node →
      (t.put names .directory).node? other = some node := by
    intro other node ho
    have hne : other ≠ names := by
      rintro rfl
      rw [h] at ho
      cases ho
    rw [node?_put hn, if_neg hne, ho]
  exact ⟨rfl, kept, fun _ => kept⟩

theorem Keeps.put_file (h : t.node? names ≠ some .directory) :
    Keeps (· ≠ names) t (t.put names (.file content)) := by
  have hn := ne_nil_of_node? h
  refine ⟨rfl, fun {other} ho => ?_, fun {other _} hs ho => ?_⟩
  · have hne : other ≠ names := by
      rintro rfl
      exact h ho
    rw [node?_put hn, if_neg hne, ho]
  · rw [node?_put hn, if_neg hs, ho]

/-! ### Following a path -/

theorem node?_of_enter {name : Text} (h : t.enter names name = .ok other) :
    t.node? names = some .directory := by
  unfold enter at h
  split at h
  · cases h
  · cases h
  · assumption

/-- A name leads to the place it names, unless it is empty or a matter of dots. -/
theorem eq_append_of_enter {name : Text} (hnil : name ≠ []) (hdot : name ≠ ['.'])
    (hdots : name ≠ ['.', '.']) (h : t.enter names name = .ok other) : other = names ++ [name] := by
  have hd := node?_of_enter h
  unfold enter at h
  rw [hd] at h
  simp only [hnil, hdot, or_self, if_false, hdots] at h
  split at h
  · cases h
  · exact (Except.ok.inj h).symm

/-- What is kept can still be followed. -/
theorem Keeps.enter (h : Keeps spared t t') {name : Text} (he : t.enter names name = .ok other) :
    t'.enter names name = .ok other := by
  have hd := node?_of_enter he
  unfold Tree.enter at he ⊢
  rw [hd] at he
  rw [h.directory hd]
  exact he

theorem Keeps.foldlM_enter (h : Keeps spared t t') : ∀ {pieces : List Text} {names : List Text},
    pieces.foldlM t.enter names = .ok other → pieces.foldlM t'.enter names = .ok other
  | [], _, he => he
  | piece :: pieces, names, he => by
    rw [List.foldlM_cons] at he ⊢
    cases hp : t.enter names piece with
    | error fault =>
      rw [hp] at he
      cases he
    | ok next =>
      rw [hp] at he
      rw [h.enter hp]
      exact h.foldlM_enter he

/-- Where a path leads, its names are entered one by one. -/
theorem locate_eq_ok_iff :
    t.locate path = .ok names ↔
      '\x00' ∉ path ∧ path ≠ [] ∧ Text.byteLength path ≤ pathLimit ∧
        (path.splitOn '/').foldlM t.enter (if Path.isAbsolute path then [] else t.cwd) =
          .ok names := by
  unfold locate
  split
  · simp_all
  · split
    · simp_all
    · split
      · rename_i hlimit
        simp [Nat.not_le.2 hlimit]
      · rename_i hnul hnil hlimit
        simp only [hnul, hnil, Nat.not_lt.1 hlimit, not_false_eq_true, ne_eq, true_and]

/-- A path leads where it led. -/
theorem Keeps.locate (h : Keeps spared t t') (hl : t.locate path = .ok names) :
    t'.locate path = .ok names := by
  obtain ⟨hnul, hnil, hlimit, he⟩ := locate_eq_ok_iff.1 hl
  refine locate_eq_ok_iff.2 ⟨hnul, hnil, hlimit, ?_⟩
  rw [h.cwd]
  exact h.foldlM_enter he

theorem at?_eq_ok_iff :
    t.at? path = .ok node ↔ ∃ names, t.locate path = .ok names ∧ t.node? names = some node := by
  unfold at?
  cases hl : t.locate path with
  | error fault => simp [bind, Except.bind]
  | ok names =>
    simp only [bind, Except.bind, Except.ok.injEq, exists_eq_left']
    cases t.node? names with
    | none => simp [throw, throwThe, MonadExceptOf.throw]
    | some found => simp [pure, Except.pure]

/-- What is at a path depends on the place it leads to. -/
theorem at?_eq_of_locate_eq {file : Path} (h : t.locate file = t.locate path) :
    t.at? file = t.at? path := by
  unfold at?
  rw [h]

/-- A file that is spared is there with the same contents. -/
theorem Keeps.at? (h : Keeps spared t t') (hs : ∀ names, t.locate path = .ok names → spared names)
    (hf : t.at? path = .ok (.file content)) : t'.at? path = .ok (.file content) := by
  obtain ⟨names, hl, hn⟩ := at?_eq_ok_iff.1 hf
  exact at?_eq_ok_iff.2 ⟨names, h.locate hl, h.file (hs names hl) hn⟩

/-! ### Where a path ends -/

theorem getLast?_intercalate {α : Type} (sep : α) (last : List α) : ∀ init : List (List α),
    ([sep].intercalate (init ++ [last])).getLast? =
      last.getLast?.or (if init = [] then none else some sep)
  | [] => by simp
  | x :: init => by
    rw [List.cons_append, List.intercalate_cons_of_ne_nil (by simp), List.getLast?_append,
      List.getLast?_append, getLast?_intercalate sep last init]
    cases init <;> simp

/-- The path ends in a character of a name: neither a separator nor a dot. -/
structure EndsIn (path : Path) (c : Char) : Prop where
  last : path.getLast? = some c
  separator : c ≠ '/'
  dot : c ≠ '.'

/-- A path seen from a directory ends as it does by itself. -/
theorem EndsIn.join {c : Char} (h : EndsIn path c) (dir : Path) :
    EndsIn (Path.join dir path) c := by
  refine ⟨?_, h.separator, h.dot⟩
  unfold Path.join
  split
  · exact h.last
  · split
    · rw [List.getLast?_append, h.last, Option.some_or]
    · rw [List.getLast?_append, List.getLast?_cons, h.last]
      rfl

theorem EndsIn.splitOn {c : Char} (h : EndsIn path c) :
    ∃ init last, path.splitOn '/' = init ++ [last] ∧ last.getLast? = some c := by
  rcases List.eq_nil_or_concat (path.splitOn '/') with hsplit | ⟨init, last, hsplit⟩
  · exact absurd hsplit (List.splitOn_ne_nil '/' path)
  · rw [List.concat_eq_append] at hsplit
    refine ⟨init, last, hsplit, ?_⟩
    have hjoin : ['/'].intercalate (path.splitOn '/') = path := List.intercalate_splitOn '/'
    have hc := h.last
    rw [hsplit] at hjoin
    rw [← hjoin, getLast?_intercalate] at hc
    cases hlast : last.getLast? with
    | some d => simpa [hlast] using hc
    | none =>
      -- the path would end in a separator
      rw [hlast, Option.none_or] at hc
      split at hc
      · cases hc
      · exact absurd (Option.some.inj hc).symm h.separator

/-- The place a path leads to ends as the path does. -/
theorem EndsIn.locate {c : Char} (h : EndsIn path c) (hl : t.locate path = .ok names) :
    ∃ name, names.getLast? = some name ∧ name.getLast? = some c := by
  obtain ⟨init, last, hsplit, hlast⟩ := h.splitOn
  obtain ⟨_, _, _, he⟩ := locate_eq_ok_iff.1 hl
  simp only [hsplit, List.foldlM_append, List.foldlM_cons, List.foldlM_nil, bind_pure] at he
  cases hi : init.foldlM t.enter (if Path.isAbsolute path then [] else t.cwd) with
  | error fault =>
    rw [hi] at he
    cases he
  | ok above =>
    rw [hi] at he
    have hnil : last ≠ [] := by
      rintro rfl
      cases hlast
    have hdot : last ≠ ['.'] := by
      rintro rfl
      exact h.dot (Option.some.inj hlast).symm
    have hdots : last ≠ ['.', '.'] := by
      rintro rfl
      exact h.dot (Option.some.inj hlast).symm
    rw [eq_append_of_enter hnil hdot hdots he, List.getLast?_concat]
    exact ⟨last, rfl, hlast⟩

/-! ### Changes -/

theorem run_tryCatch {α : Type} (x : Change α) (f : Fault → Change α) (t : Tree) :
    (tryCatch x f).run.run t =
      match x.run.run t with
      | (.ok a, t') => (.ok a, t')
      | (.error fault, t') => (f fault).run.run t' := by
  rw [ExceptT.run_tryCatch, StateT.run_bind]
  rcases x.run.run t with ⟨fault | a, t'⟩ <;> rfl

/-- Whatever becomes of the change, it keeps directories and the files that are spared. -/
def Change.Keeps {α : Type} (spared : List Text → Prop) (x : Change α) : Prop :=
  ∀ t, Tree.Keeps spared t (x.run.run t).2

namespace Change.Keeps

variable {α β : Type}

theorem pure (a : α) : Change.Keeps spared (Pure.pure a) := fun t => Tree.Keeps.refl t

theorem throw (fault : Fault) : Change.Keeps spared (throw fault : Change α) :=
  fun t => Tree.Keeps.refl t

theorem tryCatch {x : Change α} {f : Fault → Change α} (hx : Change.Keeps spared x)
    (hf : ∀ fault, Change.Keeps spared (f fault)) : Change.Keeps spared (tryCatch x f) := by
  intro t
  have hxt := hx t
  rw [run_tryCatch]
  rcases hr : x.run.run t with ⟨fault | a, t₁⟩ <;> rw [hr] at hxt
  · exact hxt.trans (hf fault t₁)
  · exact hxt

theorem bind {x : Change α} {f : α → Change β} (hx : Change.Keeps spared x)
    (hf : ∀ a, Change.Keeps spared (f a)) : Change.Keeps spared (x >>= f) := by
  intro t
  have hxt := hx t
  rw [run_bind]
  rcases hr : x.run.run t with ⟨fault | a, t₁⟩ <;> rw [hr] at hxt
  · exact hxt
  · exact hxt.trans (hf a t₁)

end Change.Keeps

theorem keeps_makeDirectory (path : Path) : Change.Keeps spared (makeDirectory path) := by
  intro t
  unfold makeDirectory
  rw [run_get_bind, run_ofExcept_bind]
  cases t.locate (dropSeparators path) with
  | error fault => exact Keeps.refl t
  | ok names =>
    simp only
    cases hn : t.node? names with
    | some node => exact Change.Keeps.throw _ t
    | none => exact Keeps.put_directory hn

theorem keeps_acceptDirectory (path : Path) (fault : Fault) :
    Change.Keeps spared (acceptDirectory path fault) := by
  intro t
  unfold acceptDirectory
  rw [run_get_bind]
  split
  · exact Change.Keeps.throw fault t
  · exact Change.Keeps.pure () t

/-- Making directories only adds to a tree. -/
theorem keeps_makeDirectoriesFor (n : Nat) (path : Path) :
    Change.Keeps spared (makeDirectoriesFor n path) := by
  induction n generalizing path with
  | zero => exact Change.Keeps.throw _
  | succ n ih =>
    unfold makeDirectoriesFor
    split
    · exact Change.Keeps.pure ()
    · refine (keeps_makeDirectory path).tryCatch fun fault => ?_
      cases fault with
      | noEntry =>
        cases Path.parent? path with
        | none => exact Change.Keeps.throw _
        | some parent =>
          refine (ih parent).bind fun _ => ?_
          exact (keeps_makeDirectory path).tryCatch (keeps_acceptDirectory path)
      | _ => exact keeps_acceptDirectory path _

/-- A write that succeeds puts the file in its place after it has made directories. -/
theorem write_eq_ok (h : (write path content).run.run t = (.ok (), t')) :
    ∃ t₁ names, (∀ spared, Keeps spared t t₁) ∧ t₁.locate path = .ok names ∧
      t₁.node? names ≠ some .directory ∧ t' = t₁.put names (.file content) := by
  unfold write at h
  obtain ⟨_, t₁, hmade, h⟩ := run_bind_eq_ok h
  have hkept : ∀ spared, Keeps spared t t₁ := by
    intro spared
    have hk : Keeps spared t ((makeDirectories ((Path.parent? path).getD [])).run.run t).2 :=
      keeps_makeDirectoriesFor _ _ t
    rw [hmade] at hk
    exact hk
  rw [run_get_bind, run_ofExcept_bind] at h
  cases hl : t₁.locate path with
  | error fault =>
    rw [hl] at h
    cases h
  | ok names =>
    simp only [hl] at h
    refine ⟨t₁, names, hkept, hl, ?_⟩
    split at h
    · cases h
    · rename_i hn
      exact ⟨hn, (Prod.mk.inj h).2.symm⟩

/-- **What was written can be read.** -/
theorem at?_of_write (h : (write path content).run.run t = (.ok (), t')) :
    t'.at? path = .ok (.file content) := by
  obtain ⟨t₁, names, _, hl, hn, rfl⟩ := write_eq_ok h
  refine at?_eq_ok_iff.2 ⟨names, (Keeps.put_file hn).locate hl, ?_⟩
  rw [node?_put (ne_nil_of_node? hn), if_pos rfl]

/-- After a write every path leads where it led. -/
theorem locate_of_write {other : Path} (h : (write path content).run.run t = (.ok (), t'))
    (hl : t.locate other = .ok names) : t'.locate other = .ok names := by
  obtain ⟨t₁, _, hkept, _, hn, rfl⟩ := write_eq_ok h
  have hl₁ := (hkept fun _ => True).locate hl
  exact (Keeps.put_file hn).locate hl₁

/-- **A write spares the files whose paths end differently.** -/
theorem at?_of_write_of_ne {file : Path} {old : Bytes} {c d : Char} (hp : EndsIn path c)
    (hd : EndsIn file d) (hne : d ≠ c) (h : (write path content).run.run t = (.ok (), t'))
    (hf : t.at? file = .ok (.file old)) : t'.at? file = .ok (.file old) := by
  obtain ⟨t₁, names, hkept, hl, hn, rfl⟩ := write_eq_ok h
  have hf₁ := (hkept fun _ => True).at? (fun _ _ => trivial) hf
  refine (Keeps.put_file hn).at? ?_ hf₁
  rintro other ho rfl
  obtain ⟨a, ha, hac⟩ := hp.locate hl
  obtain ⟨b, hb, hbd⟩ := hd.locate ho
  rw [ha] at hb
  obtain rfl := Option.some.inj hb
  rw [hac] at hbd
  exact hne (Option.some.inj hbd).symm

end Tree
end Nameplate
