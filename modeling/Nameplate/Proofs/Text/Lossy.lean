/-
# What lossy decoding replaces

`Utf8.Replaced` says which text bytes stand for when U+FFFD is put in place of
what is no character, and it says so by the encodings of the characters alone.
Bytes are taken from the left. Where a character stands, it is taken. Where
none does, the longest stretch that could have begun one is replaced as a
whole, and a byte that begins no character is replaced by itself: a maximal
invalid stretch (`Utf8.IsMaximal`). Lossy decoding gives this text, and there
is no other (`Utf8.replaced_iff`).

What the decoder has read of an unfinished character (`Utf8.Reached`) always
begins one, since there is a byte left for each range that is to come; and a
byte outside the range shows that no character goes on with it.

A byte below 0x80 belongs to no longer character and ends every stretch before
it, so what stands before it and what stands behind it can be decoded apart
(`Utf8.Replaced.append_low`).

Key definitions: `Utf8.IsMaximal`, `Utf8.Replaced`, `Utf8.Reached`.
Key theorems: `Utf8.firstPiece`, `Utf8.replaced_iff`, `Utf8.Replaced.append_low`.
-/
import Nameplate.Proofs.Text.Utf8

namespace Nameplate
namespace Utf8

/-- The bytes may begin a character. -/
def Begins (u : Bytes) : Prop := ∃ c, u <+: encodeChar c

theorem Begins.of_prefix {u v : Bytes} (hv : Begins v) (h : u <+: v) : Begins u := by
  obtain ⟨c, hc⟩ := hv
  exact ⟨c, h.trans hc⟩

/-- Before `rest`, the bytes `u` are a maximal stretch that is no character: the longest one that may
begin a character, or a single byte that begins none. -/
structure IsMaximal (u rest : Bytes) : Prop where
  noChar : ∀ c, ¬ encodeChar c <+: u ++ rest
  ne_nil : u ≠ []
  begins : Begins u ∨ u.length = 1
  longest : ∀ v, v <+: u ++ rest → Begins v → v.length ≤ u.length

/-- The texts that bytes stand for when U+FFFD takes the place of each maximal stretch that is no
character. -/
inductive Replaced : Bytes → Text → Prop
  | nil : Replaced [] []
  | char (c : Char) {rest : Bytes} {t : Text} : Replaced rest t →
      Replaced (encodeChar c ++ rest) (c :: t)
  | stretch {u rest : Bytes} {t : Text} : IsMaximal u rest → Replaced rest t →
      Replaced (u ++ rest) ('\uFFFD' :: t)

/-! ### Stretches -/

section Stretches

variable {u rest : Bytes}

/-- A longer beginning of `u ++ rest` than `u` goes on with the first byte of `rest`. -/
theorem exists_next_of_prefix {v : Bytes} (h : v <+: u ++ rest) (hlen : u.length < v.length) :
    ∃ b w, rest = b :: w ∧ u ++ [b] <+: v := by
  have huv : u <+: v := List.prefix_of_prefix_length_le (List.prefix_append u rest) h (by omega)
  obtain ⟨d, rfl⟩ := huv
  have hd : d <+: rest := (List.prefix_append_right_inj u).1 h
  cases d with
  | nil => simp at hlen
  | cons b d =>
    obtain ⟨w, hw⟩ := hd
    exact ⟨b, d ++ w, hw.symm, d, by simp⟩

/-- What cannot be continued is a maximal stretch. -/
theorem isMaximal_of_next (hno : ∀ c, ¬ encodeChar c <+: u ++ rest) (hne : u ≠ [])
    (hbegins : Begins u ∨ u.length = 1) (hnext : ∀ b w, rest = b :: w → ¬ Begins (u ++ [b])) :
    IsMaximal u rest := by
  refine ⟨hno, hne, hbegins, fun v hv hvb => ?_⟩
  refine Nat.le_of_not_lt fun hlen => ?_
  obtain ⟨b, w, hrest, hb⟩ := exists_next_of_prefix hv hlen
  exact hnext b w hrest (hvb.of_prefix hb)

theorem IsMaximal.not_begins {b : UInt8} {w : Bytes} (h : IsMaximal u (b :: w)) :
    ¬ Begins (u ++ [b]) := by
  intro hb
  have hle := h.longest (u ++ [b]) ⟨w, by simp⟩ hb
  rw [List.length_append, List.length_singleton] at hle
  omega

theorem IsMaximal.one_le_length (h : IsMaximal u rest) : 1 ≤ u.length :=
  List.length_pos_iff.2 h.ne_nil

/-- At one place there is one maximal stretch. -/
theorem IsMaximal.length_le {u' rest' : Bytes} (h : IsMaximal u rest) (h' : IsMaximal u' rest')
    (he : u ++ rest = u' ++ rest') : u.length ≤ u'.length := by
  rcases h.begins with hb | hone
  · exact h'.longest u (he ▸ List.prefix_append u rest) hb
  · rw [hone]
    exact h'.one_le_length

theorem IsMaximal.unique {u' rest' : Bytes} (h : IsMaximal u rest) (h' : IsMaximal u' rest')
    (he : u ++ rest = u' ++ rest') : u = u' ∧ rest = rest' :=
  List.append_inj he (Nat.le_antisymm (h.length_le h' he) (h'.length_le h he.symm))

end Stretches

/-! ### Bytes below 0x80 -/

section Low

variable {u rest w : Bytes} {b : UInt8}

theorem encodeChar_low (hb : b.toNat < 0x80) : encodeChar (Char.ofNat b.toNat) = [b] := by
  rw [encodeChar, toNat_ofNat (by omega)]
  simp only [hb, if_true, toUInt8_toNat]

theorem not_begins_low (hb : b.toNat < 0x80) (hu : u ≠ []) : ¬ Begins (u ++ [b]) := by
  rintro ⟨c, w, hc⟩
  have hmem : b.toNat.toUInt8 ∈ encodeChar c := by
    rw [toUInt8_toNat, ← hc]
    simp
  have hchar : encodeChar c = [b] := by
    rw [← Char.ofNat_toNat c, (mem_encodeChar_iff hb c).1 hmem, encodeChar_low hb]
  have hlen := congrArg List.length (hc.trans hchar)
  have hpos := List.length_pos_iff.2 hu
  simp only [List.length_append, List.length_singleton] at hlen
  omega

/-- A stretch ends before a byte below 0x80, whether it would have ended there or not. -/
theorem IsMaximal.append_low (hb : b.toNat < 0x80) (h : IsMaximal u rest) :
    IsMaximal u (rest ++ b :: w) := by
  have hlongest : ∀ v, v <+: u ++ (rest ++ b :: w) → Begins v → v.length ≤ u.length := by
    intro v hv hvb
    refine Nat.le_of_not_lt fun hlen => ?_
    obtain ⟨x, w', hx, hux⟩ := exists_next_of_prefix hv hlen
    have hnext := hvb.of_prefix hux
    cases rest with
    | nil =>
      obtain ⟨rfl, rfl⟩ := List.cons.inj hx
      exact not_begins_low hb h.ne_nil hnext
    | cons y rest =>
      obtain ⟨rfl, -⟩ := List.cons.inj hx
      exact h.not_begins hnext
  refine ⟨fun c hc => ?_, h.ne_nil, h.begins, hlongest⟩
  -- a character that stood there now would end within the stretch
  have hle := hlongest _ hc ⟨c, List.prefix_rfl⟩
  have hcu := List.prefix_of_prefix_length_le hc (List.prefix_append u _) hle
  exact h.noChar c (hcu.trans (List.prefix_append u rest))

/-- **A byte below 0x80 parts the bytes**: what is before it and what is behind it stand for texts of
their own. -/
theorem Replaced.append_low {t t' : Text} (hb : b.toNat < 0x80) (h : Replaced u t)
    (h' : Replaced rest t') : Replaced (u ++ b :: rest) (t ++ Char.ofNat b.toNat :: t') := by
  induction h with
  | nil =>
    have hlow := Replaced.char (Char.ofNat b.toNat) h'
    rwa [encodeChar_low hb] at hlow
  | char c _ ih =>
    rw [List.append_assoc]
    exact .char c ih
  | stretch hm _ ih =>
    rw [List.append_assoc]
    exact .stretch (hm.append_low hb) ih

end Low

/-! ### What the decoder reads -/

/-- Having read the bytes `u`, and no character yet, the decoder is in the state `p`. -/
inductive Reached : Bytes → Pending → Prop
  | lead {a : UInt8} {p : Pending} : 0x80 ≤ a.toNat → followers a.toNat = some p → Reached [a] p
  | more {u : Bytes} {r r' : Nat × Nat} {rs : List (Nat × Nat)} {v k : Nat} {b : UInt8} :
      Reached u ⟨r, r' :: rs, v, k⟩ → r.1 ≤ b.toNat → b.toNat ≤ r.2 →
      Reached (u ++ [b]) ⟨r', rs, v * 0x40 + (b.toNat - 0x80), k + 1⟩

section Reading

variable {u : Bytes} {p : Pending}

theorem Reached.ne_nil (h : Reached u p) : u ≠ [] := by
  cases h <;> simp

theorem Reached.pieces_append (h : Reached u p) (rest : Bytes) :
    pieces (u ++ rest) = piecesFrom (some p) rest := by
  induction h generalizing rest with
  | @lead a p ha hp =>
    have hlead := piecesFrom_lead a.toNat_lt ha hp rest
    rwa [toUInt8_toNat] at hlead
  | @more u r r' rs v k b _ hlo hhi ih =>
    have hmore : piecesFrom (some ⟨r, r' :: rs, v, k⟩) (b.toNat.toUInt8 :: rest) = _ :=
      piecesFrom_more b.toNat_lt hlo hhi rest
    rw [toUInt8_toNat] at hmore
    rw [List.append_assoc, ih]
    exact hmore

/-- There is a byte in each of the ranges that are to come. -/
theorem followers_open {n : Nat} (h : followers n = some p) :
    ∀ r ∈ p.next :: p.later, r.1 ≤ r.2 ∧ r.2 ≤ 0xBF := by
  unfold followers at h
  repeat' split at h
  all_goals
    cases h <;> simp [tail]

theorem Reached.open (h : Reached u p) : ∀ r ∈ p.next :: p.later, r.1 ≤ r.2 ∧ r.2 ≤ 0xBF := by
  induction h with
  | lead _ hp => exact followers_open hp
  | more _ _ _ ih => exact fun r hr => ih r (List.mem_cons_of_mem _ hr)

/-- A byte in the last range ends a character. -/
theorem Reached.encodeChar_eq {r : Nat × Nat} {v k : Nat} {b : UInt8} (h : Reached u ⟨r, [], v, k⟩)
    (hlo : r.1 ≤ b.toNat) (hhi : b.toNat ≤ r.2) :
    encodeChar (Char.ofNat (v * 0x40 + (b.toNat - 0x80))) = u ++ [b] := by
  have hlast : piecesFrom (some ⟨r, [], v, k⟩) (b.toNat.toUInt8 :: []) = _ :=
    piecesFrom_last b.toNat_lt hlo hhi []
  rw [toUInt8_toNat, ← h.pieces_append] at hlast
  have hdecode : decode (u ++ [b]) = .ok [Char.ofNat (v * 0x40 + (b.toNat - 0x80))] := by
    rw [decode, hlast]
    rfl
  have hencode := encode_of_decode hdecode
  rwa [encode, List.flatMap_singleton] at hencode

/-- What has been read begins a character. -/
theorem Reached.begins (h : Reached u p) : Begins u := by
  obtain ⟨r, later, v, k⟩ := p
  have hr := h.open r List.mem_cons_self
  have hb : r.1.toUInt8.toNat = r.1 := toNat_toUInt8 (by omega)
  induction later generalizing u r v k with
  | nil =>
    have hchar := h.encodeChar_eq (b := r.1.toUInt8) (by omega) (by omega)
    exact ⟨_, hchar ▸ List.prefix_append u _⟩
  | cons r' rs ih =>
    have hmore := h.more (b := r.1.toUInt8) (by omega) (by omega)
    have hr' := hmore.open r' List.mem_cons_self
    have hbegins := ih r' _ _ hmore hr' (toNat_toUInt8 (by omega))
    exact hbegins.of_prefix (List.prefix_append u _)

/-- Where the first piece is no character, no character stands. -/
theorem not_prefix_of_pieces {bs : Bytes} {x : Piece} {ps : List Piece} (h : pieces bs = x :: ps)
    (hx : ∀ c, x ≠ .char c) (c : Char) : ¬ encodeChar c <+: bs := by
  rintro ⟨w, rfl⟩
  rw [pieces, piecesFrom_encodeChar] at h
  exact hx c (List.cons.inj h).1.symm

/-- A byte out of range ends the stretch, and the next piece begins with it. -/
theorem Reached.pieces_invalid {b : UInt8} (h : Reached u p)
    (hb : ¬ (p.next.1 ≤ b.toNat ∧ b.toNat ≤ p.next.2)) (rest : Bytes) :
    pieces (u ++ b :: rest) = .invalid p.read :: pieces (b :: rest) := by
  rw [h.pieces_append, piecesFrom, step, if_neg hb]
  rfl

theorem Reached.not_begins {b : UInt8} (h : Reached u p)
    (hb : ¬ (p.next.1 ≤ b.toNat ∧ b.toNat ≤ p.next.2)) : ¬ Begins (u ++ [b]) := by
  rintro ⟨c, w, hc⟩
  have hpieces := h.pieces_invalid hb w
  have hc' : u ++ b :: w = encodeChar c := by simpa using hc
  exact not_prefix_of_pieces hpieces (by simp) c (hc' ▸ List.prefix_rfl)

/-- What the first piece of bytes can be. -/
inductive FirstPiece : Bytes → Prop
  | char {c : Char} {rest : Bytes} : pieces (encodeChar c ++ rest) = .char c :: pieces rest →
      FirstPiece (encodeChar c ++ rest)
  | stretch {u rest : Bytes} {x : Piece} : IsMaximal u rest → x.lossy = '\uFFFD' →
      pieces (u ++ rest) = x :: pieces rest → FirstPiece (u ++ rest)

theorem Reached.firstPiece : ∀ {u : Bytes} {p : Pending} (rest : Bytes), Reached u p →
    FirstPiece (u ++ rest)
  | u, p, [], h => by
    have hpieces : pieces (u ++ []) = .incomplete :: pieces [] := h.pieces_append []
    refine .stretch ?_ rfl hpieces
    exact isMaximal_of_next (not_prefix_of_pieces hpieces (by simp)) h.ne_nil (Or.inl h.begins)
      (by simp)
  | u, p, b :: rest, h => by
    by_cases hb : p.next.1 ≤ b.toNat ∧ b.toNat ≤ p.next.2
    · obtain ⟨r, later, v, k⟩ := p
      cases later with
      | nil =>
        have hchar := h.encodeChar_eq hb.1 hb.2
        have happend : u ++ b :: rest = (u ++ [b]) ++ rest := by simp
        rw [happend, ← hchar]
        exact .char (piecesFrom_encodeChar _ rest)
      | cons r' rs =>
        have hmore := (h.more hb.1 hb.2).firstPiece rest
        simpa using hmore
    · have hpieces := h.pieces_invalid hb rest
      refine .stretch ?_ rfl hpieces
      refine isMaximal_of_next (not_prefix_of_pieces hpieces (by simp)) h.ne_nil
        (Or.inl h.begins) fun b' w he => ?_
      obtain ⟨rfl, rfl⟩ := List.cons.inj he
      exact h.not_begins hb

/-- **Each piece is a character or a maximal stretch that is none.** -/
theorem firstPiece : ∀ {bs : Bytes}, bs ≠ [] → FirstPiece bs
  | [], h => absurd rfl h
  | a :: rest, _ => by
    by_cases hlow : a.toNat < 0x80
    · have hfirst := FirstPiece.char (piecesFrom_encodeChar (Char.ofNat a.toNat) rest)
      rwa [encodeChar_low hlow] at hfirst
    · cases hf : followers a.toNat with
      | some p => exact (Reached.lead (Nat.le_of_not_lt hlow) hf).firstPiece rest
      | none =>
        have hpieces (w : Bytes) : pieces ([a] ++ w) = .invalid 1 :: pieces w := by
          rw [List.singleton_append, pieces, piecesFrom, step, begin, if_neg hlow, hf]
          rfl
        refine .stretch (u := [a]) ?_ rfl (hpieces rest)
        refine isMaximal_of_next (not_prefix_of_pieces (hpieces rest) (by simp)) (by simp)
          (Or.inr rfl) fun b w _ => ?_
        rintro ⟨c, w', hc⟩
        rw [List.append_assoc] at hc
        exact not_prefix_of_pieces (hpieces ([b] ++ w')) (by simp) c ⟨[], by rw [hc, List.append_nil]⟩

end Reading

/-! ### Lossy decoding -/

theorem replaced_decodeLossy (bs : Bytes) : Replaced bs (decodeLossy bs) := by
  induction hn : bs.length using Nat.strongRecOn generalizing bs with
  | ind n ih =>
    by_cases hbs : bs = []
    · rw [hbs]
      exact .nil
    · cases firstPiece hbs with
      | @char c rest hp =>
        have hlen := List.length_pos_iff.2 (encodeChar_ne_nil c)
        rw [List.length_append] at hn
        rw [decodeLossy, hp]
        exact .char c (ih rest.length (by omega) rest rfl)
      | @stretch u rest x hm hx hp =>
        have hlen := hm.one_le_length
        rw [List.length_append] at hn
        rw [decodeLossy, hp, List.map_cons, hx]
        exact .stretch hm (ih rest.length (by omega) rest rfl)

/-- **Lossy decoding puts one U+FFFD in the place of each maximal stretch** that is no character, and
that can be done in one way only. -/
theorem replaced_iff {bs : Bytes} {t : Text} : Replaced bs t ↔ decodeLossy bs = t := by
  constructor
  · intro h
    induction h with
    | nil => rfl
    | @char c rest t _ ih =>
      rw [decodeLossy, pieces, piecesFrom_encodeChar, List.map_cons]
      exact congrArg (c :: ·) ih
    | @stretch u rest t hm _ ih =>
      have hne : u ++ rest ≠ [] := by simp [hm.ne_nil]
      generalize hbs : u ++ rest = bs at hne ⊢
      cases firstPiece hne with
      | @char c w _ => exact absurd ⟨w, hbs.symm⟩ (hm.noChar c)
      | stretch hm' hx hp =>
        obtain ⟨rfl, rfl⟩ := hm.unique hm' hbs
        rw [decodeLossy, hp, List.map_cons, hx]
        exact congrArg ('\uFFFD' :: ·) ih
  · rintro rfl
    exact replaced_decodeLossy bs

end Utf8
end Nameplate
