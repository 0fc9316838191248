/-
# Looking into a text that has a quote

A marker never lies across a character that it lacks, such as a double quote: a
text with a quote contains it exactly when the part before or the part after
does (`contains_append_cons`). What a line begins with, its blanks left out, is
settled before the quote as well (`isPrefixOf_trimStart_append_quote`). A text cut
at a byte keeps the longest beginning that fits
(`isLongestBeginning_splitAtBytes`).

Key definition: `Text.IsLongestBeginning`.
Key theorems: `Text.contains_append_cons`,
`Text.isPrefixOf_trimStart_append_quote`, `Text.splitAtBytes_append_left`,
`Text.isLongestBeginning_splitAtBytes`.
-/
import Nameplate.Text.Quoted

namespace Nameplate
namespace Text

/-! ### Infixes -/

/-- A text without the character `c` lies before it or after it. -/
theorem infix_append_cons_iff {c : Char} {m a b : Text} (h : c ∉ m) (hm : m ≠ []) :
    m <:+: a ++ c :: b ↔ m <:+: a ∨ m <:+: b := by
  constructor
  · intro hi
    rcases List.infix_append_iff_ne_nil.1 hi with ha | hb | ⟨m₁, m₂, _, hm₂, rfl, _, hp⟩
    · exact Or.inl ha
    · rcases List.infix_cons_iff.1 hb with hp | hb
      · rcases List.prefix_cons_iff.1 hp with rfl | ⟨t, rfl, _⟩
        · exact absurd rfl hm
        · exact absurd List.mem_cons_self h
      · exact Or.inr hb
    · rcases List.prefix_cons_iff.1 hp with rfl | ⟨t, rfl, _⟩
      · exact absurd rfl hm₂
      · exact absurd (List.mem_append_right _ List.mem_cons_self) h
  · rintro (ha | hb)
    · exact List.infix_append_of_infix_left ha
    · exact List.infix_append_of_infix_right (List.infix_cons hb)

/-- **A marker never lies across a character that it lacks.** -/
theorem contains_append_cons {c : Char} {m : Text} (h : c ∉ m) (hm : m ≠ []) (a b : Text) :
    contains m (a ++ c :: b) = (contains m a || contains m b) := by
  rw [Bool.eq_iff_iff, Bool.or_eq_true, contains_iff, contains_iff, contains_iff,
    infix_append_cons_iff h hm]

/-- A text with a character that the other lacks is not contained in it. -/
theorem contains_eq_false_of_mem {m t : Text} {c : Char} (hc : c ∈ m) (ht : c ∉ t) :
    contains m t = false := by
  rw [Bool.eq_false_iff, ne_eq, contains_iff]
  exact fun h => ht (h.subset hc)

/-! ### Beginnings -/

theorem trimStart_append_quote (a b : Text) :
    trimStart (a ++ '"' :: b) = trimStart a ++ '"' :: b := by
  have hq : isBlankChar '"' = false := by decide
  induction a with
  | nil => simp [trimStart, hq]
  | cons c a ih =>
    unfold trimStart at ih ⊢
    rw [List.cons_append, List.dropWhile_cons, List.dropWhile_cons]
    split
    · exact ih
    · rfl

/-- A beginning without the character `c` lies before it. -/
theorem prefix_of_prefix_append_cons {c : Char} :
    ∀ {m a b : Text}, c ∉ m → m <+: a ++ c :: b → m <+: a
  | [], a, _, _, _ => List.nil_prefix
  | x :: m, [], _, h, hp => by
    obtain ⟨rfl, _⟩ := List.cons_prefix_cons.1 hp
    exact absurd List.mem_cons_self h
  | x :: m, y :: a, b, h, hp => by
    rw [List.cons_append, List.cons_prefix_cons] at hp
    have hm : c ∉ m := fun hc => h (List.mem_cons_of_mem x hc)
    exact List.cons_prefix_cons.2 ⟨hp.1, prefix_of_prefix_append_cons hm hp.2⟩

/-- What a line begins with is settled before its first quote. -/
theorem isPrefixOf_trimStart_append_quote {m : Text} (h : '"' ∉ m) (a b : Text) :
    m.isPrefixOf (trimStart (a ++ '"' :: b)) = m.isPrefixOf (trimStart a) := by
  rw [trimStart_append_quote, Bool.eq_iff_iff, List.isPrefixOf_iff_prefix,
    List.isPrefixOf_iff_prefix]
  exact ⟨prefix_of_prefix_append_cons h, fun hp => hp.trans (List.prefix_append _ _)⟩

/-! ### Cutting at a byte -/

/-- A budget that covers a beginning takes it whole. -/
theorem splitAtBytes_append_left (a b : Text) (k : Nat) :
    splitAtBytes (byteLength a + k) (a ++ b) =
      (a ++ (splitAtBytes k b).1, (splitAtBytes k b).2) := by
  induction a with
  | nil => simp [byteLength]
  | cons c a ih =>
    rw [List.cons_append, splitAtBytes, byteLength, if_pos (by omega),
      show c.utf8Size + byteLength a + k - c.utf8Size = byteLength a + k by omega, ih]
    rfl

theorem splitAtBytes_zero : ∀ t : Text, splitAtBytes 0 t = ([], t)
  | [] => rfl
  | c :: t => by
    have hc : 0 < c.utf8Size := Char.utf8Size_pos c
    rw [splitAtBytes, if_neg (by omega)]

/-- A budget that covers just a beginning ends with it. -/
theorem splitAtBytes_byteLength (a b : Text) : splitAtBytes (byteLength a) (a ++ b) = (a, b) := by
  have h := splitAtBytes_append_left a b 0
  rwa [splitAtBytes_zero, Nat.add_zero, List.append_nil] at h

/-- `x` is the longest beginning of `t` that takes at most `budget` bytes. -/
structure IsLongestBeginning (budget : Nat) (t x : Text) : Prop where
  beginning : x <+: t
  fits : byteLength x ≤ budget
  longest : ∀ u, u <+: t → byteLength u ≤ budget → u <+: x

theorem isLongestBeginning_splitAtBytes (budget : Nat) (t : Text) :
    IsLongestBeginning budget t (splitAtBytes budget t).1 where
  beginning := ⟨_, splitAtBytes_append budget t⟩
  fits := byteLength_splitAtBytes_le budget t
  longest := by
    rintro u ⟨rest, rfl⟩ hu
    obtain ⟨k, rfl⟩ := Nat.exists_eq_add_of_le hu
    rw [splitAtBytes_append_left]
    exact List.prefix_append _ _

end Text

/-- A line has no quoted value when it has fewer than two double quotes. -/
theorem Quoted.split?_eq_none_iff (t : Text) : split? t = none ↔ t.count '"' ≤ 1 := by
  unfold split?
  cases h : Text.splitAtFirst '"' t with
  | none =>
    have hnone := (Text.splitAtFirst_eq_none_iff '"' t).1 h
    simp [List.count_eq_zero_of_not_mem hnone]
  | some parts =>
    obtain ⟨before, rest⟩ := parts
    obtain ⟨rfl, hbefore⟩ := Text.eq_of_splitAtFirst h
    simp only [Option.map_eq_none_iff, splitAtLast?_eq_none_iff]
    rw [List.count_append, List.count_cons_self, List.count_eq_zero_of_not_mem hbefore,
      ← List.count_eq_zero]
    omega

/-- A marker without a quote is on a line when it is before the value, in it or after it. -/
theorem Quoted.contains_line {m : Text} (hne : m ≠ []) (hq : '"' ∉ m) (q : Quoted) :
    Text.contains m q.line =
      (Text.contains m q.before || (Text.contains m q.value || Text.contains m q.after)) := by
  rw [line, Text.contains_append_cons hq hne, Text.contains_append_cons hq hne]

end Nameplate
