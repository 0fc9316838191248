/-
# The dots of a version that is filled in

The numeric rule puts one and the same text between the pieces that the
placeholders of a value leave (`Text.replace_eq_join`), and leaves what stands
around the value (`Text.exists_surrounds`). That text is the version part with
the components that the value lacks, counted on the value alone and before
anything is put in: with up to three dots it lacks as many as make three of
them, with more it is taken to have none (`Template.lacking`).

So the dots of a filled value are known without looking where its placeholders
stand (`Template.numeric_filledIn`); a value of up to four components with one
placeholder, and a part without dots, come to four components.

Key definitions: `Text.Surrounds`, `Template.lacking`, `Template.FilledIn`.
Key theorem: `Template.numeric_filledIn`.
-/
import Nameplate.Proofs.Version.Components
import Nameplate.Proofs.Version.Value

namespace Nameplate

namespace Text

/-! ### What stands around a value -/

/-- What stands before and after the value on a line: all up to its first double quote, and all
from its last one on; nothing if the line has fewer than two and is its own value. -/
inductive Surrounds (value : Text) : Text → Text → Prop
  | quoted {before after : Text} : '"' ∉ before → '"' ∉ after →
      Surrounds value (before ++ ['"']) ('"' :: after)
  | unquoted : value.count '"' ≤ 1 → Surrounds value [] []

/-- Every line has a value with something around it, and a change of the value leaves that. -/
theorem exists_surrounds (line : Text) :
    ∃ before after, Surrounds (quotedOrAll line) before after ∧
      line = before ++ quotedOrAll line ++ after ∧
      ∀ f, mapQuoted f line = before ++ f (quotedOrAll line) ++ after := by
  unfold quotedOrAll mapQuoted
  cases h : Quoted.split? line with
  | none =>
    have hcount := (Quoted.split?_eq_none_iff line).1 h
    exact ⟨[], [], .unquoted hcount, by simp, fun f => by simp⟩
  | some q =>
    obtain ⟨hline, hbefore, hafter⟩ := Quoted.line_of_split? h
    refine ⟨q.before ++ ['"'], '"' :: q.after, .quoted hbefore hafter, ?_, fun f => ?_⟩
    · simpa [Quoted.line] using hline
    · simp [Quoted.line]

/-- A new value is read back from between quotes, and from a line of its own if it does not bring
two quotes itself. -/
theorem Surrounds.quotedOrAll_eq {value before after : Text} (h : Surrounds value before after)
    {new : Text} (hnew : new.count '"' ≤ 1 ∨ before ≠ []) :
    quotedOrAll (before ++ new ++ after) = new := by
  cases h with
  | @quoted before after hbefore hafter =>
    have hline : before ++ ['"'] ++ new ++ '"' :: after = Quoted.line ⟨before, new, after⟩ := by
      simp [Quoted.line]
    rw [hline]
    exact quotedOrAll_line hbefore hafter
  | unquoted =>
    have hnone := (Quoted.split?_eq_none_iff new).2 (hnew.resolve_right (by simp))
    rw [List.nil_append, List.append_nil, quotedOrAll, hnone]

/-! ### The pieces between placeholders -/

/-- A replacement joins the pieces that the character leaves. -/
theorem replace_eq_join (c : Char) (new t : Text) : replace c new t = join new (t.splitOn c) := by
  have hcons (x : Char) (pieces : List Text) (hne : pieces ≠ []) :
      join new (pieces.modifyHead (List.cons x)) = x :: join new pieces := by
    match pieces, hne with
    | [piece], _ => rfl
    | piece :: next :: pieces, _ => simp [join, List.intercalate]
  induction t with
  | nil => rfl
  | cons x t ih =>
    have hne : t.splitOn c ≠ [] := List.splitOn_ne_nil c t
    unfold replace at ih ⊢
    rw [List.flatMap_cons, ih, List.splitOn_cons_eq_if_modifyHead]
    by_cases hx : x = c
    · obtain ⟨piece, pieces, hpieces⟩ := List.exists_cons_of_ne_nil hne
      rw [if_pos hx, if_pos (by simpa using hx), hpieces]
      simp [join, List.intercalate]
    · rw [if_neg hx, if_neg (by simpa using hx), hcons x _ hne, List.singleton_append]

end Text

namespace Template

/-! ### Filling in -/

theorem count_dot_zeros (n : Nat) : (zeros n).count '.' = n := by
  induction n with
  | zero => rfl
  | succ n ih =>
    unfold zeros at ih ⊢
    rw [List.replicate_succ, List.flatten_cons, List.count_append, ih, Nat.add_comm]
    rfl

/-- `filled` is `value` with the version part `part` in all its places. -/
structure FilledIn (part value filled : Text) : Prop where
  eq_join : filled =
    Text.join (part ++ zeros (lacking (value.count '.'))) (value.splitOn placeholder)
  placeholder_notMem : placeholder ∉ filled
  count_dot : filled.count '.' =
    value.count '.' + value.count placeholder * (part.count '.' + lacking (value.count '.'))
  four : value.count placeholder = 1 → part.count '.' = 0 → value.count '.' ≤ 3 →
    filled.components = 4

theorem filledIn_fill {part : Text} (hpart : placeholder ∉ part) (value : Text) :
    FilledIn part value (fill part value) := by
  have hcount : (fill part value).count '.' =
      value.count '.' + value.count placeholder * (part.count '.' + lacking (value.count '.')) := by
    rw [fill, filling_eq, Text.count_replace (by decide), List.count_append,
      count_dot_zeros]
  refine ⟨?_, placeholder_notMem_fill hpart value, hcount, fun hone hdotless hthree => ?_⟩
  · rw [fill, filling_eq, Text.replace_eq_join]
  · rw [Text.components_eq, hcount, hone, hdotless, lacking, if_pos hthree]
    omega

/-- **The numeric rule fills in every place alike**, and the dots of the value that comes of it are
those it had and, for every place, those of the part and of what was lacking. -/
theorem numeric_filledIn {part line : Text}
    (hplaces : 1 ≤ (Text.quotedOrAll line).count placeholder) (hpart : Text.trim part ≠ [])
    (hfixed : placeholder ∉ Text.trim part) :
    ∃ before after filled, Text.Surrounds (Text.quotedOrAll line) before after ∧
      line = before ++ Text.quotedOrAll line ++ after ∧
      numeric (some part) line = some (before ++ filled ++ after) ∧
      FilledIn (Text.trim part) (Text.quotedOrAll line) filled ∧
      ('"' ∉ part ∨ before ≠ [] → Text.quotedOrAll (before ++ filled ++ after) = filled) := by
  obtain ⟨before, after, hsurrounds, hline, hmap⟩ := Text.exists_surrounds line
  have hawaits : awaitsPart line = true := decide_eq_true (List.count_pos_iff.1 hplaces)
  have hgiven : (some part).bind Text.nonBlank? = some (Text.trim part) := by
    rw [ne_eq, Text.trim_eq_nil_iff] at hpart
    rw [Option.bind_some, Text.nonBlank?, if_neg hpart]
  refine ⟨before, after, fill (Text.trim part) (Text.quotedOrAll line), hsurrounds, hline, ?_,
    filledIn_fill hfixed _, fun hquote => hsurrounds.quotedOrAll_eq ?_⟩
  · rw [numeric, if_pos hawaits, hgiven, Option.map_some, hmap]
  · cases hsurrounds with
    | quoted => exact Or.inr (by simp)
    | unquoted hcount =>
      have hfree : '"' ∉ filling (Text.trim part) ((Text.quotedOrAll line).count '.') := fun hm =>
        hquote.resolve_right (by simp) (Text.trim_subset part (mem_of_mem_filling (by decide) hm))
      refine Or.inl ?_
      rwa [fill, Text.count_replace_of_notMem hfree (by decide)]

/-- Two places at the ends of a value with two dots, and dots around it that do not count. -/
theorem numeric_filledIn_twice :
    ∃ before after filled,
      numeric (some " 7.1 ") "[System.Reflection.AssemblyVersion(\"*.0.*\")]" =
        some (before ++ filled ++ after) ∧
      before ++ filled ++ after =
        "[System.Reflection.AssemblyVersion(\"7.1.0.0.7.1.0\")]".toList ∧
      FilledIn "7.1" "*.0.*" filled ∧ filled.count '.' = 6 := by
  have hplaces : 1 ≤ (Text.quotedOrAll "[System.Reflection.AssemblyVersion(\"*.0.*\")]").count
      placeholder := by
    decide
  have hpart : Text.trim " 7.1 " ≠ [] := by decide
  obtain ⟨before, after, filled, -, -, hstamped, hfilled, -⟩ :=
    numeric_filledIn hplaces hpart (by decide)
  refine ⟨before, after, filled, hstamped, ?_, hfilled, hfilled.count_dot⟩
  have hline : numeric (some " 7.1 ") "[System.Reflection.AssemblyVersion(\"*.0.*\")]" =
      some "[System.Reflection.AssemblyVersion(\"7.1.0.0.7.1.0\")]".toList := by
    decide
  exact Option.some.inj (hstamped.symm.trans hline)

end Template
end Nameplate
