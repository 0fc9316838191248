/-
# Character boundaries

A text may be cut where one character ends and the next begins, and among its bytes
a single byte tells whether an offset is such a place: the bytes from 0x80 to 0xBF go
on with a character, and all others begin one (`Utf8.encodeChar_eq_lead`). So the
boundaries of a text are the ends of its beginnings (`Utf8.isBoundary_encode_iff`).

`Utf8.boundaryFrom?` goes down from an offset, byte by byte, until it meets a boundary.
Zero is always one, so the search never runs below it, and it ends at the greatest
boundary on its way (`Utf8.boundaryFrom?_eq_some_iff`). In a text that is where the
longest beginning ends that fits (`Utf8.boundaryFrom?_encode`).

Key definitions: `Utf8.isBoundary`, `Utf8.boundaryFrom?`.
Key theorems: `Utf8.encodeChar_eq_lead`, `Utf8.isBoundary_encode_iff`,
`Utf8.boundaryFrom?_eq_some_iff`, `Utf8.boundaryFrom?_encode`.
-/
import Mathlib.Order.Bounds.Basic
import Nameplate.Proofs.Text.Contains
import Nameplate.Proofs.Text.Utf8

namespace Nameplate

/-! ### Cutting a text after a number of bytes -/

namespace Text

/-- The character after a cut did not fit. -/
theorem lt_of_splitAtBytes {budget : Nat} {t : Text} {c : Char} {rest : Text}
    (h : (splitAtBytes budget t).2 = c :: rest) :
    budget < byteLength (splitAtBytes budget t).1 + c.utf8Size := by
  by_contra hfits
  have hlongest := (isLongestBeginning_splitAtBytes budget t).longest
  have hwhole := splitAtBytes_append budget t
  generalize (splitAtBytes budget t).1 = x at hfits hlongest hwhole
  have hmore : x ++ [c] <+: t := by
    rw [← hwhole, h, List.append_cons x c rest]
    exact List.prefix_append _ _
  have hbytes : byteLength (x ++ [c]) = byteLength x + c.utf8Size := by
    rw [byteLength_append, byteLength, byteLength, Nat.add_zero]
  have hprefix := hlongest (x ++ [c]) hmore (by omega)
  have hlength := hprefix.length_le
  rw [List.length_append, List.length_singleton] at hlength
  omega

/-- A text is not cut behind its end. -/
theorem splitAtBytes_min (budget : Nat) (t : Text) :
    splitAtBytes (min budget (byteLength t)) t = splitAtBytes budget t := by
  rcases Nat.le_total budget (byteLength t) with hle | hle
  · rw [Nat.min_eq_left hle]
  · obtain ⟨more, rfl⟩ := Nat.exists_eq_add_of_le hle
    have hall := splitAtBytes_append_left t [] more
    have hend := splitAtBytes_byteLength t []
    rw [List.append_nil] at hall hend
    rw [Nat.min_eq_right hle, hall, hend, splitAtBytes, List.append_nil]

/-- A cut falls at most three bytes short, for no character is longer than four. -/
theorem le_splitAtBytes_add (budget : Nat) (t : Text) :
    min budget (byteLength t) ≤ byteLength (splitAtBytes budget t).1 + 3 := by
  have hwhole := splitAtBytes_append budget t
  cases hrest : (splitAtBytes budget t).2 with
  | nil =>
    rw [hrest, List.append_nil] at hwhole
    rw [hwhole]
    omega
  | cons c rest =>
    have hnext := lt_of_splitAtBytes hrest
    have hsize := Char.utf8Size_le_four c
    omega

end Text

/-! ### Boundaries among bytes -/

namespace Utf8

/-- Whether a byte goes on with a character that an earlier one began. -/
def continues (b : UInt8) : Bool := 0x80 ≤ b.toNat && b.toNat < 0xC0

/-- Whether no character lies on both sides of the offset. The byte there decides: at the two ends
there is none to one side. -/
def isBoundary (bs : Bytes) (offset : Nat) : Bool :=
  offset = 0 ||
    match bs[offset]? with
    | some b => !continues b
    | none => offset = bs.length

/-- The first boundary that a search downwards from an offset comes to; `none` when it would have to
go below zero. -/
def boundaryFrom? (bs : Bytes) (offset : Nat) : Option Nat :=
  if isBoundary bs offset then some offset
  else
    match offset with
    | 0 => none
    | below + 1 => boundaryFrom? bs below

section Bytes

variable {bs : Bytes} {offset : Nat}

theorem isBoundary_of_some {b : UInt8} (h : bs[offset]? = some b) :
    isBoundary bs offset = (decide (offset = 0) || !continues b) := by
  rw [isBoundary, h]

theorem isBoundary_of_none (h : bs[offset]? = none) :
    isBoundary bs offset = (decide (offset = 0) || decide (offset = bs.length)) := by
  rw [isBoundary, h]

end Bytes

theorem utf8Size_eq (c : Char) :
    c.utf8Size =
      if c.toNat < 0x80 then 1 else if c.toNat < 0x800 then 2 else if c.toNat < 0x10000 then 3
      else 4 := by
  have hlast (k : Nat) : c.toNat ≤ k ↔ c.toNat < k + 1 := Nat.lt_succ_iff.symm
  have hval : c.val.toNat = c.toNat := rfl
  unfold Char.utf8Size
  simp only [UInt32.le_iff_toNat_le, hval, UInt32.toNat_ofNatLT, hlast]

theorem continues_tail {n : Nat} (h : n < 0x40) : continues (0x80 + n).toUInt8 = true := by
  rw [continues, toNat_toUInt8 (by omega)]
  simp only [Bool.and_eq_true, decide_eq_true_eq]
  omega

theorem not_continues_lead {n : Nat} (h : n < 0x100) (h' : n < 0x80 ∨ 0xC0 ≤ n) :
    continues n.toUInt8 = false := by
  rw [continues, toNat_toUInt8 h]
  simp only [Bool.and_eq_false_iff, decide_eq_false_iff_not]
  omega

/-- **The bytes of a character**: the first begins it, the others go on with it. -/
theorem encodeChar_eq_lead (c : Char) :
    ∃ lead rest, encodeChar c = lead :: rest ∧ continues lead = false ∧
      (∀ b ∈ rest, continues b = true) ∧ rest.length + 1 = c.utf8Size := by
  have hr := toNat_range c
  rw [utf8Size_eq]
  unfold encodeChar
  generalize c.toNat = n at hr
  simp only
  by_cases h1 : n < 0x80
  · rw [if_pos h1, if_pos h1]
    exact ⟨_, [], rfl, not_continues_lead (by omega) (.inl h1), List.forall_mem_nil _, rfl⟩
  rw [if_neg h1, if_neg h1]
  by_cases h2 : n < 0x800
  · rw [if_pos h2, if_pos h2]
    refine ⟨_, _, rfl, not_continues_lead (by omega) (.inr (by omega)), ?_, rfl⟩
    exact List.forall_mem_singleton.2 (continues_tail (by omega))
  rw [if_neg h2, if_neg h2]
  by_cases h3 : n < 0x10000
  · rw [if_pos h3, if_pos h3]
    refine ⟨_, _, rfl, not_continues_lead (by omega) (.inr (by omega)), ?_, rfl⟩
    refine List.forall_mem_cons.2 ⟨continues_tail (by omega), ?_⟩
    exact List.forall_mem_singleton.2 (continues_tail (by omega))
  · rw [if_neg h3, if_neg h3]
    refine ⟨_, _, rfl, not_continues_lead (by omega) (.inr (by omega)), ?_, rfl⟩
    refine List.forall_mem_cons.2 ⟨continues_tail (by omega), ?_⟩
    refine List.forall_mem_cons.2 ⟨continues_tail (by omega), ?_⟩
    exact List.forall_mem_singleton.2 (continues_tail (by omega))

/-- A text takes as many bytes as are written for it. -/
theorem length_encode (t : Text) : (encode t).length = Text.byteLength t := by
  induction t with
  | nil => rfl
  | cons c t ih =>
    obtain ⟨lead, rest, hc, -, -, hsize⟩ := encodeChar_eq_lead c
    have hcons : encode (c :: t) = encodeChar c ++ encode t := rfl
    rw [hcons, hc, List.length_append, List.length_cons, hsize, ih, Text.byteLength]

/-! ### The places at which a text can be cut -/

section Slices

variable (a b : Text)

theorem take_encode_append : (encode (a ++ b)).take (Text.byteLength a) = encode a := by
  rw [encode_append, ← length_encode, List.take_left]

theorem drop_encode_append : (encode (a ++ b)).drop (Text.byteLength a) = encode b := by
  rw [encode_append, ← length_encode, List.drop_left]

/-- What comes `k` bytes after a beginning. -/
theorem getElem?_encode_append (k : Nat) :
    (encode (a ++ b))[Text.byteLength a + k]? = (encode b)[k]? := by
  rw [encode_append, ← length_encode, List.getElem?_append_right (Nat.le_add_right _ _),
    Nat.add_sub_cancel_left]

/-- A beginning ends at a boundary. -/
theorem isBoundary_byteLength : isBoundary (encode (a ++ b)) (Text.byteLength a) = true := by
  have hnext := getElem?_encode_append a b 0
  rw [Nat.add_zero] at hnext
  cases b with
  | nil =>
    have hend : Text.byteLength a = (encode (a ++ [])).length := by
      rw [length_encode, List.append_nil]
    rw [isBoundary_of_none hnext, decide_eq_true hend, Bool.or_true]
  | cons c b =>
    obtain ⟨lead, rest, hc, hlead, -⟩ := encodeChar_eq_lead c
    have hfirst : (encode (c :: b))[0]? = some lead := by
      rw [encode, List.flatMap_cons, hc]
      rfl
    rw [isBoundary_of_some (hnext.trans hfirst), hlead, Bool.not_false, Bool.or_true]

end Slices

/-- Within a character there is no boundary. -/
theorem not_isBoundary_within (a b : Text) {c : Char} {k : Nat} (hpos : 0 < k)
    (hk : k < c.utf8Size) : isBoundary (encode (a ++ c :: b)) (Text.byteLength a + k) = false := by
  obtain ⟨lead, rest, hc, -, hrest, hsize⟩ := encodeChar_eq_lead c
  obtain ⟨j, rfl⟩ : ∃ j, k = j + 1 := ⟨k - 1, by omega⟩
  have hj : j < rest.length := by omega
  have hbyte : (encode (a ++ c :: b))[Text.byteLength a + (j + 1)]? = some rest[j] := by
    rw [getElem?_encode_append, encode, List.flatMap_cons, hc, List.cons_append,
      List.getElem?_cons_succ, List.getElem?_append_left hj, List.getElem?_eq_getElem hj]
  have hgoes : continues rest[j] = true := hrest _ (List.getElem_mem hj)
  rw [isBoundary_of_some hbyte, hgoes, Bool.not_true, Bool.or_false, decide_eq_false_iff_not]
  omega

/-- Nor is there one behind the end. -/
theorem not_isBoundary_behind {bs : Bytes} {offset : Nat} (h : bs.length < offset) :
    isBoundary bs offset = false := by
  have hnone : bs[offset]? = none := List.getElem?_eq_none (by omega)
  rw [isBoundary_of_none hnone, Bool.or_eq_false_iff, decide_eq_false_iff_not,
    decide_eq_false_iff_not]
  omega

/-- **The boundaries of a text are the ends of its beginnings.** -/
theorem isBoundary_encode_iff (t : Text) (offset : Nat) :
    isBoundary (encode t) offset = true ↔ ∃ a, a <+: t ∧ Text.byteLength a = offset := by
  constructor
  · intro h
    have hbegins := Text.isLongestBeginning_splitAtBytes offset t
    refine ⟨_, hbegins.beginning, ?_⟩
    have hfits := hbegins.fits
    have hwhole := Text.splitAtBytes_append offset t
    by_contra hne
    cases hrest : (Text.splitAtBytes offset t).2 with
    | nil =>
      rw [hrest, List.append_nil] at hwhole
      rw [hwhole] at hfits hne
      rw [not_isBoundary_behind (by rw [length_encode]; omega)] at h
      exact Bool.noConfusion h
    | cons c rest =>
      have hnext := Text.lt_of_splitAtBytes hrest
      rw [hrest] at hwhole
      have hwithin := not_isBoundary_within (Text.splitAtBytes offset t).1 rest (c := c)
        (k := offset - Text.byteLength (Text.splitAtBytes offset t).1) (by omega) (by omega)
      rw [hwhole, Nat.add_sub_cancel' hfits, h] at hwithin
      exact Bool.noConfusion hwithin
  · rintro ⟨a, ⟨b, rfl⟩, rfl⟩
    exact isBoundary_byteLength a b

/-! ### Searching for a boundary -/

theorem isBoundary_zero (bs : Bytes) : isBoundary bs 0 = true := rfl

/-- **The search ends at the greatest boundary** that does not lie behind its start. -/
theorem boundaryFrom?_eq_some_iff (bs : Bytes) (start offset : Nat) :
    boundaryFrom? bs start = some offset ↔
      IsGreatest {k | isBoundary bs k = true ∧ k ≤ start} offset := by
  induction start with
  | zero =>
    rw [boundaryFrom?, if_pos (isBoundary_zero bs), Option.some.injEq]
    constructor
    · rintro rfl
      exact ⟨⟨isBoundary_zero bs, Nat.le_refl 0⟩, fun k hk => hk.2⟩
    · intro h
      exact (Nat.le_zero.1 h.1.2).symm
  | succ below ih =>
    rw [boundaryFrom?]
    by_cases hstart : isBoundary bs (below + 1) = true
    · rw [if_pos hstart, Option.some.injEq]
      constructor
      · rintro rfl
        exact ⟨⟨hstart, Nat.le_refl _⟩, fun k hk => hk.2⟩
      · intro h
        exact Nat.le_antisymm (h.2 ⟨hstart, Nat.le_refl _⟩) h.1.2
    · -- what is no boundary itself can be left out
      have hset : {k | isBoundary bs k = true ∧ k ≤ below + 1} =
          {k | isBoundary bs k = true ∧ k ≤ below} := by
        ext k
        simp only [Set.mem_ofPred_eq, and_congr_right_iff]
        intro hk
        have hne : k ≠ below + 1 := fun he => hstart (he ▸ hk)
        omega
      rw [if_neg hstart, ih, hset]

/-- **A search among the bytes of a text** ends where the longest beginning that fits does. -/
theorem boundaryFrom?_encode (t : Text) (start : Nat) :
    boundaryFrom? (encode t) start =
      some (Text.byteLength (Text.splitAtBytes start t).1) := by
  have hlongest := Text.isLongestBeginning_splitAtBytes start t
  rw [boundaryFrom?_eq_some_iff]
  refine ⟨⟨(isBoundary_encode_iff t _).2 ⟨_, hlongest.beginning, rfl⟩, hlongest.fits⟩, ?_⟩
  rintro k ⟨hk, hle⟩
  obtain ⟨a, ha, rfl⟩ := (isBoundary_encode_iff t k).1 hk
  obtain ⟨rest, hrest⟩ := hlongest.longest a ha hle
  rw [← hrest, Text.byteLength_append]
  omega

end Utf8
end Nameplate
