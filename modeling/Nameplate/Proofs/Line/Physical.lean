/-
# The physical lines of bytes

Splitting is a bijection between byte strings and the lists of lines that a
file can have: it loses nothing, and a list that satisfies `AreLines` is the
only one that makes up its bytes (`PhysicalLine.split_eq_iff`). So what is
written line by line is read back as the same lines, be it text or not.

Bytes are cut as the characters of the same numbers are (`split_map`): neither
a line feed nor a carriage return has a second number. What is known of the
lines of a text is thereby known of the lines of any bytes.

Key definition: `PhysicalLine.AreLines`.
Key theorem: `PhysicalLine.split_eq_iff`.
-/
import Mathlib.Data.List.Basic
import Mathlib.Data.List.Forall2
import Nameplate.Proofs.Line.Splitting

namespace Nameplate

/-- Only the last line of a file may lack an ending. -/
theorem Line.proper_iff {ls : List Line} :
    Proper ls ↔ (∀ l ∈ ls, l.IsPhysical) ∧ ∀ l ∈ ls.dropLast, l.ending ≠ .none := by
  induction ls with
  | nil => simp [Proper]
  | cons l ls ih =>
    cases ls with
    | nil => simp [Proper]
    | cons next rest =>
      rw [Proper, ih, List.dropLast_cons_of_ne_nil (List.cons_ne_nil next rest),
        List.forall_mem_cons (l := next :: rest), List.forall_mem_cons (l := (next :: rest).dropLast)]
      constructor
      · rintro ⟨hl, hlast, hall, hended⟩
        exact ⟨⟨hl, hall⟩, fun he => by simpa using hlast he, hended⟩
      · rintro ⟨⟨hl, hall⟩, hne, hended⟩
        exact ⟨hl, fun he => absurd he hne, hall, hended⟩

/-- Other lines with the same endings are the lines of a file again. -/
theorem Line.Proper.of_forall₂ : ∀ {ls ls' : List Line}, Proper ls →
    List.Forall₂ (fun l l' => l'.IsPhysical ∧ l'.ending = l.ending) ls ls' → Proper ls'
  | [], [], _, .nil => trivial
  | _ :: _, _ :: _, ⟨_, hlast, hls⟩, .cons ⟨hphysical, hending⟩ hs =>
    ⟨hphysical, fun he => by
      obtain rfl := hlast (hending ▸ he)
      exact List.forall₂_nil_left_iff.1 hs, hls.of_forall₂ hs⟩

namespace PhysicalLine

/-- What the lines of a file are: no line feed is in a line, no carriage return stands right before
a line feed that ends one, and an ending is left out only where the file ends, after some text. -/
structure AreLines (ls : List PhysicalLine) : Prop where
  lineFeed_notMem : ∀ l ∈ ls, 0x0A ∉ l.text
  noReturn : ∀ l ∈ ls, l.ending = .lineFeed → l.text.getLast? ≠ some 0x0D
  ne_nil : ∀ l ∈ ls, l.ending = .none → l.text ≠ []
  ended : ∀ l ∈ ls.dropLast, l.ending ≠ .none

/-! ### Bytes as characters -/

/-- The character that has the byte's number. -/
def charOf (b : UInt8) : Char := Char.ofNat b.toNat

theorem toNat_charOf (b : UInt8) : (charOf b).toNat = b.toNat :=
  Utf8.toNat_ofNat (Or.inl (by have := b.toNat_lt; omega))

theorem charOf_injective : Function.Injective charOf := fun a b h => by
  rw [← UInt8.toNat_inj, ← toNat_charOf, h, toNat_charOf]

/-- The line with its bytes as characters. -/
def asLine (l : PhysicalLine) : Line := ⟨l.text.map charOf, l.ending⟩

theorem asLine_injective : Function.Injective asLine := by
  rintro ⟨s, e⟩ ⟨t, f⟩ h
  simp only [asLine, Line.mk.injEq] at h
  rw [List.map_injective_iff.2 charOf_injective h.1, h.2]

theorem map_extend (b : UInt8) (ls : List PhysicalLine) :
    (extend b ls).map asLine = Line.extend (charOf b) (ls.map asLine) := by
  cases ls with
  | nil => rfl
  | cons l ls =>
    have hb : charOf b = '\r' ↔ b = 0x0D := charOf_injective.eq_iff (b := 0x0D)
    have hl : asLine l = ⟨[], .lineFeed⟩ ↔ l = ⟨[], .lineFeed⟩ :=
      asLine_injective.eq_iff (b := ⟨[], .lineFeed⟩)
    simp only [extend, List.map_cons, Line.extend, hb, hl]
    split <;> rfl

/-- **Bytes are cut as characters are.** -/
theorem split_map (bs : Bytes) : Line.split (bs.map charOf) = (split bs).map asLine := by
  induction bs with
  | nil => rfl
  | cons b rest ih =>
    have hb : charOf b = '\n' ↔ b = 0x0A := charOf_injective.eq_iff (b := 0x0A)
    simp only [List.map_cons, Line.split, split, hb, ih, ← map_extend]
    split <;> rfl

theorem join_map (ls : List PhysicalLine) : Line.join (ls.map asLine) = (join ls).map charOf := by
  have hending : ∀ e : Ending, e.text = e.bytes.map charOf := by
    intro e
    cases e <;> rfl
  induction ls with
  | nil => rfl
  | cons l ls ih =>
    have hjoin : join (l :: ls) = l.bytes ++ join ls := rfl
    rw [List.map_cons, Line.join_cons, ih, hjoin, List.map_append, bytes, List.map_append,
      ← hending]
    rfl

theorem isPhysical_asLine_iff (l : PhysicalLine) :
    l.asLine.IsPhysical ↔ 0x0A ∉ l.text ∧ (l.ending = .lineFeed → l.text.getLast? ≠ some 0x0D) ∧
      (l.ending = .none → l.text ≠ []) := by
  have hmem : '\n' ∈ l.text.map charOf ↔ 0x0A ∈ l.text :=
    List.mem_map_of_injective charOf_injective (a := 0x0A)
  have hlast : (l.text.map charOf).getLast? = some '\r' ↔ l.text.getLast? = some 0x0D := by
    rw [List.getLast?_map]
    exact (Option.map_injective charOf_injective).eq_iff (b := some 0x0D)
  constructor
  · rintro ⟨h₁, h₂, h₃⟩
    exact ⟨mt hmem.2 h₁, fun he => mt hlast.2 (h₂ he), fun he => mt (by simp [asLine]) (h₃ he)⟩
  · rintro ⟨h₁, h₂, h₃⟩
    exact ⟨mt hmem.1 h₁, fun he => mt hlast.1 (h₂ he), fun he => mt (by simp [asLine]) (h₃ he)⟩

theorem proper_map_iff (ls : List PhysicalLine) : Line.Proper (ls.map asLine) ↔ AreLines ls := by
  rw [Line.proper_iff, ← List.map_dropLast, List.forall_mem_map, List.forall_mem_map]
  simp only [isPhysical_asLine_iff]
  constructor
  · rintro ⟨h, hended⟩
    exact ⟨fun l hl => (h l hl).1, fun l hl => (h l hl).2.1, fun l hl => (h l hl).2.2, hended⟩
  · rintro ⟨h₁, h₂, h₃, hended⟩
    exact ⟨fun l hl => ⟨h₁ l hl, h₂ l hl, h₃ l hl⟩, hended⟩

/-- The lines of bytes are lines that a file can have. -/
theorem areLines_split (bs : Bytes) : AreLines (split bs) := by
  rw [← proper_map_iff, ← split_map]
  exact Line.proper_split _

/-- **Splitting is a bijection** of byte strings with the lists of lines that a file can have: the
lines of bytes are such a list that makes them up, and there is no other one. -/
theorem split_eq_iff (bs : Bytes) (ls : List PhysicalLine) :
    split bs = ls ↔ AreLines ls ∧ join ls = bs := by
  constructor
  · rintro rfl
    exact ⟨areLines_split bs, join_split bs⟩
  · rintro ⟨hls, rfl⟩
    apply List.map_injective_iff.2 asLine_injective
    rw [← split_map, ← join_map]
    exact Line.split_join ((proper_map_iff ls).2 hls)

end PhysicalLine
end Nameplate
