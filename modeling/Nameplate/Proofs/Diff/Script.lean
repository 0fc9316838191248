/-
# What a script says of two lists

A script leads from one list to another if the items it keeps are in both, those it
deletes only in the old one and those it inserts only in the new one, each in their
order (`Diff.Rewrites`). Such a script loses nothing: from the old list and the items it
inserts the new list can be rebuilt (`Diff.Rewrites.rebuild_eq`).

The script of two lists is such a script, wherever the search has divided them
(`Diff.rewrites_script`). That it is a shortest one is not covered; what the search
finds decides where the lists are divided and nothing else.

Key definitions: `Diff.Rewrites`, `Diff.inserted`, `Diff.rebuild`.
Key theorems: `Diff.Rewrites.append`, `Diff.Rewrites.between`, `Diff.rewrites_script`,
`Diff.rebuild_script`.
-/
import Nameplate.Diff.Script

namespace Nameplate
namespace Diff

/-! ### Scripts between two lists -/

variable {α : Type}

/-- The script leads from the old list to the new one: what it keeps is in both, what it deletes is
in the old list only, and what it inserts in the new one only. -/
inductive Rewrites : List Run → List α → List α → Prop
  | nil : Rewrites [] [] []
  | keep {runs : List Run} {old new : List α} (items : List α) :
      Rewrites runs old new → Rewrites (.keep items.length :: runs) (items ++ old) (items ++ new)
  | delete {runs : List Run} {old new : List α} (items : List α) :
      Rewrites runs old new → Rewrites (.delete items.length :: runs) (items ++ old) new
  | insert {runs : List Run} {old new : List α} (items : List α) :
      Rewrites runs old new → Rewrites (.insert items.length :: runs) old (items ++ new)

/-- What the script inserts, when `new` is where it leads. -/
def inserted : List Run → List α → List α
  | [], _ => []
  | .keep n :: runs, new => inserted runs (new.drop n)
  | .delete _ :: runs, new => inserted runs new
  | .insert n :: runs, new => new.take n ++ inserted runs (new.drop n)

/-- The list that a script makes of an old one and the items it is to insert. -/
def rebuild : List Run → List α → List α → List α
  | [], _, _ => []
  | .keep n :: runs, old, fresh => old.take n ++ rebuild runs (old.drop n) fresh
  | .delete n :: runs, old, fresh => rebuild runs (old.drop n) fresh
  | .insert n :: runs, old, fresh => fresh.take n ++ rebuild runs old (fresh.drop n)

namespace Rewrites

variable {runs runs' : List Run} {old old' new new' : List α}

theorem append (h : Rewrites runs old new) (h' : Rewrites runs' old' new') :
    Rewrites (runs ++ runs') (old ++ old') (new ++ new') := by
  induction h with
  | nil => exact h'
  | keep items _ ih =>
    rw [List.append_assoc, List.append_assoc]
    exact ih.keep items
  | delete items _ ih =>
    rw [List.append_assoc]
    exact ih.delete items
  | insert items _ ih =>
    rw [List.append_assoc]
    exact ih.insert items

/-- **The new list is rebuilt** from the old one and what the script inserts. -/
theorem rebuild_eq (h : Rewrites runs old new) : rebuild runs old (inserted runs new) = new := by
  induction h with
  | nil => rfl
  | keep items _ ih => simp [rebuild, inserted, ih]
  | delete items _ ih => simp [rebuild, inserted, ih]
  | insert items _ ih => simp [rebuild, inserted, ih]

theorem of_kept (items : List α) : Rewrites (kept items.length) items items := by
  unfold kept
  by_cases h : items.length = 0
  · rw [if_pos h, List.length_eq_zero_iff.1 h]
    exact nil
  · rw [if_neg h]
    simpa using nil.keep items

theorem of_delete (items : List α) : Rewrites [.delete items.length] items [] := by
  simpa using nil.delete items

theorem of_insert (items : List α) : Rewrites [.insert items.length] [] items := by
  simpa using nil.insert items

/-- All that is old goes, and all that is new comes. -/
theorem of_replace (old new : List α) :
    Rewrites [.delete old.length, .insert new.length] old new := by
  simpa using (of_insert new).delete old

end Rewrites

/-! ### The script of two lists -/

variable [DecidableEq α]

/-- Two lists with what they have in common at their beginnings. -/
theorem exists_common (old new : List α) :
    ∃ before : List α, before.length = commonLength old new ∧
      old = before ++ old.drop before.length ∧ new = before ++ new.drop before.length := by
  have hlength : (old.take (commonLength old new)).length = commonLength old new :=
    List.length_take_of_le (commonLength_le_left old new)
  refine ⟨old.take (commonLength old new), hlength, ?_, ?_⟩
  · rw [hlength, List.take_append_drop]
  · rw [hlength, take_commonLength, List.take_append_drop]

/-- And at their ends. -/
theorem exists_common_reverse (old new : List α) :
    ∃ after : List α, after.length = commonLength old.reverse new.reverse ∧
      old = old.take (old.length - after.length) ++ after ∧
      new = new.take (new.length - after.length) ++ after := by
  obtain ⟨before, hlength, hold, hnew⟩ := exists_common old.reverse new.reverse
  have hreverse {items : List α} (h : items.reverse = before ++ items.reverse.drop before.length) :
      items = items.take (items.length - before.reverse.length) ++ before.reverse := by
    have hitems := congrArg List.reverse h
    rw [List.reverse_reverse, List.reverse_append, List.drop_reverse, List.reverse_reverse]
      at hitems
    rwa [List.length_reverse]
  exact ⟨before.reverse, (List.length_reverse).trans hlength, hreverse hold, hreverse hnew⟩

/-- What the lists have in common at their two ends can be kept. -/
theorem Rewrites.between {middle : List Run} {old new : List α} {before after : Nat}
    (hbefore : before = commonLength old new)
    (hafter : after = commonLength (old.drop before).reverse (new.drop before).reverse)
    (h : Rewrites middle ((old.drop before).take (old.length - before - after))
      ((new.drop before).take (new.length - before - after))) :
    Rewrites (kept before ++ middle ++ kept after) old new := by
  obtain ⟨first, hfirst, hold, hnew⟩ := exists_common old new
  rw [← hbefore] at hfirst
  obtain ⟨last, hlast, hold', hnew'⟩ := exists_common_reverse (old.drop before) (new.drop before)
  rw [← hafter] at hlast
  rw [List.length_drop, hlast] at hold' hnew'
  rw [hfirst] at hold hnew
  rw [hold'] at hold
  rw [hnew'] at hnew
  have hends := ((Rewrites.of_kept first).append h).append (Rewrites.of_kept last)
  rw [hfirst, hlast, List.append_assoc first, List.append_assoc first, ← hold, ← hnew] at hends
  exact hends

/-- **The script for two lists leads from the one to the other.** -/
theorem rewrites_script (old new : List α) : Rewrites (script old new) old new := by
  -- by the recursion of the script: both parts of a divided middle are smaller
  fun_induction script old new with
  | case1 old new before after a b ha hb middle ihBegin ihEnd =>
    have hmiddle : Rewrites middle a b := by
      simp only [middle]
      by_cases hnone : a.length = 0 ∧ b.length = 0
      · rw [dif_pos hnone, List.length_eq_zero_iff.1 hnone.1, List.length_eq_zero_iff.1 hnone.2]
        exact .nil
      rw [dif_neg hnone]
      by_cases hb : b.length = 0
      · rw [dif_pos hb, List.length_eq_zero_iff.1 hb]
        exact .of_delete a
      rw [dif_neg hb]
      by_cases ha : a.length = 0
      · rw [dif_pos ha, List.length_eq_zero_iff.1 ha]
        exact .of_insert b
      rw [dif_neg ha]
      split
      next x y hmeet =>
        by_cases hsmaller : (0 < x ∨ 0 < y) ∧ (x < a.length ∨ y < b.length)
        · have hparts := (ihBegin x y hsmaller).append (ihEnd hb ha x y hsmaller)
          rw [List.take_append_drop, List.take_append_drop] at hparts
          rw [dif_pos hsmaller]
          exact hparts
        · rw [dif_neg hsmaller]
          exact .of_replace a b
      next => exact .of_replace a b
    exact .between rfl rfl hmiddle

/-- So the script and what it inserts are enough to make the new list of the old one. -/
theorem rebuild_script (old new : List α) :
    rebuild (script old new) old (inserted (script old new) new) = new :=
  (rewrites_script old new).rebuild_eq

end Diff
end Nameplate
