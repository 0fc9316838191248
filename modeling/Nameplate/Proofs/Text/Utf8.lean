/-
# UTF-8 read back

What `Utf8.encode` writes, `Utf8.decode` reads back (`decode_encode`): the byte
that begins a character announces the ranges of the bytes that follow, and the
bytes written lie in them, also after 0xE0, 0xED, 0xF0 and 0xF4, where the
first of these ranges is narrower. No other bytes are a text: where a character
is read, its bytes stand (`encode_of_decode`).

A character below 0x80 is a byte of its own that occurs in no other character
(`mem_encodeChar_iff`). Hence lines can be cut before they are decoded.

Key theorems: `Utf8.decode_encode`, `Utf8.encode_of_decode`,
`Utf8.encode_injective`, `Utf8.mem_encodeChar_iff`.
-/
import Nameplate.Text.Utf8

namespace Nameplate
namespace Utf8

theorem toNat_toUInt8 {n : Nat} (h : n < 256) : n.toUInt8.toNat = n := by
  simp [Nat.toUInt8, Nat.mod_eq_of_lt h]

/-- A scalar value is no surrogate and at most U+10FFFF. -/
theorem toNat_range (c : Char) : c.toNat < 0xD800 ∨ 0xDFFF < c.toNat ∧ c.toNat < 0x110000 := by
  have h := c.valid
  simp only [UInt32.isValidChar, Nat.isValidChar] at h
  exact h

/-- A byte in the range for it, with more bytes to come. -/
theorem piecesFrom_more {lo hi b v k : Nat} {r : Nat × Nat} {rs : List (Nat × Nat)} (hb : b < 256)
    (hlo : lo ≤ b) (hhi : b ≤ hi) (rest : Bytes) :
    piecesFrom (some ⟨(lo, hi), r :: rs, v, k⟩) (b.toUInt8 :: rest) =
      piecesFrom (some ⟨r, rs, v * 0x40 + (b - 0x80), k + 1⟩) rest := by
  simp [piecesFrom, step, toNat_toUInt8 hb, hlo, hhi]

/-- The last byte of a character. -/
theorem piecesFrom_last {lo hi b v k : Nat} (hb : b < 256) (hlo : lo ≤ b) (hhi : b ≤ hi)
    (rest : Bytes) :
    piecesFrom (some ⟨(lo, hi), [], v, k⟩) (b.toUInt8 :: rest) =
      .char (Char.ofNat (v * 0x40 + (b - 0x80))) :: piecesFrom none rest := by
  simp [piecesFrom, step, toNat_toUInt8 hb, hlo, hhi]

/-- A byte that begins a longer character. -/
theorem piecesFrom_lead {b : Nat} {p : Pending} (hb : b < 256) (h : 0x80 ≤ b)
    (hp : followers b = some p) (rest : Bytes) :
    piecesFrom none (b.toUInt8 :: rest) = piecesFrom (some p) rest := by
  simp [piecesFrom, step, begin, toNat_toUInt8 hb, Nat.not_lt.2 h, hp]

theorem followers_two {n : Nat} (h : 0x80 ≤ n) (h' : n < 0x800) :
    followers (0xC0 + n / 0x40) = some ⟨tail, [], n / 0x40, 1⟩ := by
  unfold followers
  rw [if_neg (by omega), if_pos (by omega)]
  simp

/-- The second of three bytes: confined after 0xE0 and 0xED. -/
theorem followers_three {n : Nat} (h : 0x800 ≤ n) (h' : n < 0x10000)
    (hs : n < 0xD800 ∨ 0xDFFF < n) :
    ∃ lo hi, followers (0xE0 + n / 0x1000) = some ⟨(lo, hi), [tail], n / 0x1000, 1⟩ ∧
      lo ≤ 0x80 + n / 0x40 % 0x40 ∧ 0x80 + n / 0x40 % 0x40 ≤ hi := by
  unfold followers
  rw [if_neg (by omega), if_neg (by omega)]
  by_cases h0 : n / 0x1000 = 0
  · exact ⟨0xA0, 0xBF, by simp [h0], by omega, by omega⟩
  · rw [if_neg (by omega)]
    by_cases hd : n / 0x1000 = 0xD
    · exact ⟨0x80, 0x9F, by simp [hd], by omega, by omega⟩
    · rw [if_neg (by omega), if_pos (by omega)]
      exact ⟨0x80, 0xBF, by simp [tail], by omega, by omega⟩

/-- The second of four bytes: confined after 0xF0 and 0xF4. -/
theorem followers_four {n : Nat} (h : 0x10000 ≤ n) (h' : n < 0x110000) :
    ∃ lo hi, followers (0xF0 + n / 0x40000) = some ⟨(lo, hi), [tail, tail], n / 0x40000, 1⟩ ∧
      lo ≤ 0x80 + n / 0x1000 % 0x40 ∧ 0x80 + n / 0x1000 % 0x40 ≤ hi := by
  unfold followers
  rw [if_neg (by omega), if_neg (by omega), if_neg (by omega), if_neg (by omega), if_neg (by omega)]
  by_cases h0 : n / 0x40000 = 0
  · exact ⟨0x90, 0xBF, by simp [h0], by omega, by omega⟩
  · rw [if_neg (by omega)]
    by_cases h4 : n / 0x40000 = 4
    · exact ⟨0x80, 0x8F, by simp [h4], by omega, by omega⟩
    · rw [if_pos (by omega)]
      exact ⟨0x80, 0xBF, by simp [tail], by omega, by omega⟩

/-- The bytes of a character are read back as that character. -/
theorem piecesFrom_encodeChar (c : Char) (rest : Bytes) :
    piecesFrom none (encodeChar c ++ rest) = .char c :: piecesFrom none rest := by
  have hr := toNat_range c
  have hc := Char.ofNat_toNat c
  unfold encodeChar
  generalize c.toNat = n at hr hc
  simp only
  by_cases h1 : n < 0x80
  · rw [if_pos h1]
    simp [piecesFrom, step, begin, toNat_toUInt8 (show n < 256 by omega), h1, hc]
  rw [if_neg h1]
  by_cases h2 : n < 0x800
  · rw [if_pos h2]
    simp only [List.cons_append, List.nil_append]
    rw [piecesFrom_lead (by omega) (by omega) (followers_two (by omega) h2), tail,
      piecesFrom_last (by omega) (by omega) (by omega)]
    rw [show n / 0x40 * 0x40 + (0x80 + n % 0x40 - 0x80) = n by omega, hc]
  rw [if_neg h2]
  by_cases h3 : n < 0x10000
  · rw [if_pos h3]
    obtain ⟨lo, hi, hf, hlo, hhi⟩ := followers_three (by omega) h3 (by omega)
    simp only [List.cons_append, List.nil_append]
    rw [piecesFrom_lead (by omega) (by omega) hf, piecesFrom_more (by omega) hlo hhi, tail,
      piecesFrom_last (by omega) (by omega) (by omega)]
    rw [show (n / 0x1000 * 0x40 + (0x80 + n / 0x40 % 0x40 - 0x80)) * 0x40 +
      (0x80 + n % 0x40 - 0x80) = n by omega, hc]
  · rw [if_neg h3]
    obtain ⟨lo, hi, hf, hlo, hhi⟩ := followers_four (n := n) (by omega) (by omega)
    simp only [List.cons_append, List.nil_append]
    rw [piecesFrom_lead (by omega) (by omega) hf, piecesFrom_more (by omega) hlo hhi, tail,
      piecesFrom_more (by omega) (by omega) (by omega),
      piecesFrom_last (by omega) (by omega) (by omega)]
    rw [show ((n / 0x40000 * 0x40 + (0x80 + n / 0x1000 % 0x40 - 0x80)) * 0x40 +
      (0x80 + n / 0x40 % 0x40 - 0x80)) * 0x40 + (0x80 + n % 0x40 - 0x80) = n by omega, hc]

theorem pieces_encode : ∀ t : Text, pieces (encode t) = t.map .char
  | [] => rfl
  | c :: rest => by
    have ih := pieces_encode rest
    simp only [pieces, encode, List.flatMap_cons, List.map_cons] at ih ⊢
    rw [piecesFrom_encodeChar, ih]

theorem charsFrom_map_char : ∀ (t : Text) (i : Nat), charsFrom i (t.map .char) = .ok t
  | [], _ => rfl
  | c :: rest, i => by simp [charsFrom, charsFrom_map_char rest, Except.map]

/-- **The bytes of a text are read back as that text.** -/
theorem decode_encode (t : Text) : decode (encode t) = .ok t := by
  rw [decode, pieces_encode, charsFrom_map_char]

theorem encode_injective : Function.Injective encode := by
  intro s t h
  have := decode_encode s
  rw [h, decode_encode t] at this
  exact (Except.ok.inj this).symm

theorem decodeLossy_encode (t : Text) : decodeLossy (encode t) = t :=
  decodeLossy_of_decode (decode_encode t)

/-! ### Nothing else is a text -/

theorem toUInt8_toNat (b : UInt8) : b.toNat.toUInt8 = b := by simp

theorem toNat_ofNat {n : Nat} (h : n < 0xD800 ∨ 0xDFFF < n ∧ n < 0x110000) :
    (Char.ofNat n).toNat = n := by
  have hv : n.isValidChar := h
  rw [Char.ofNat, dif_pos hv]
  rfl

theorem charsFrom_char {c : Char} {ps : List Piece} {i : Nat} {t : Text}
    (h : charsFrom i (.char c :: ps) = .ok t) :
    ∃ t', t = c :: t' ∧ charsFrom (i + c.utf8Size) ps = .ok t' := by
  rw [charsFrom] at h
  cases hr : charsFrom (i + c.utf8Size) ps with
  | error e => simp [hr, Except.map] at h
  | ok t' =>
    simp only [hr, Except.map, Except.ok.injEq] at h
    exact ⟨t', h.symm, rfl⟩

/-- The byte that ends a character is in the range for it. -/
theorem charsFrom_last {r : Nat × Nat} {v k i : Nat} {bs : Bytes} {t : Text}
    (h : charsFrom i (piecesFrom (some ⟨r, [], v, k⟩) bs) = .ok t) :
    ∃ b rest t' j, bs = b :: rest ∧ r.1 ≤ b.toNat ∧ b.toNat ≤ r.2 ∧
      t = Char.ofNat (v * 0x40 + (b.toNat - 0x80)) :: t' ∧
      charsFrom j (piecesFrom none rest) = .ok t' := by
  cases bs with
  | nil => simp [piecesFrom, charsFrom] at h
  | cons b rest =>
    rw [piecesFrom, step] at h
    by_cases hb : r.1 ≤ b.toNat ∧ b.toNat ≤ r.2
    · rw [if_pos hb] at h
      obtain ⟨t', ht, h⟩ := charsFrom_char h
      exact ⟨b, rest, t', _, rfl, hb.1, hb.2, ht, h⟩
    · rw [if_neg hb] at h
      simp [charsFrom] at h

/-- So is a byte within it. -/
theorem charsFrom_more {r r' : Nat × Nat} {rs : List (Nat × Nat)} {v k i : Nat} {bs : Bytes}
    {t : Text} (h : charsFrom i (piecesFrom (some ⟨r, r' :: rs, v, k⟩) bs) = .ok t) :
    ∃ b rest, bs = b :: rest ∧ r.1 ≤ b.toNat ∧ b.toNat ≤ r.2 ∧
      charsFrom i (piecesFrom (some ⟨r', rs, v * 0x40 + (b.toNat - 0x80), k + 1⟩) rest) = .ok t := by
  cases bs with
  | nil => simp [piecesFrom, charsFrom] at h
  | cons b rest =>
    rw [piecesFrom, step] at h
    by_cases hb : r.1 ≤ b.toNat ∧ b.toNat ≤ r.2
    · rw [if_pos hb] at h
      exact ⟨b, rest, rfl, hb.1, hb.2, h⟩
    · rw [if_neg hb] at h
      simp [charsFrom] at h

theorem encodeChar_two {a b : UInt8} (ha : 0xC2 ≤ a.toNat ∧ a.toNat < 0xE0)
    (hb : 0x80 ≤ b.toNat ∧ b.toNat ≤ 0xBF) :
    encodeChar (Char.ofNat ((a.toNat - 0xC0) * 0x40 + (b.toNat - 0x80))) = [a, b] := by
  unfold encodeChar
  rw [toNat_ofNat (by omega)]
  simp only
  rw [if_neg (by omega), if_pos (by omega),
    show 0xC0 + ((a.toNat - 0xC0) * 0x40 + (b.toNat - 0x80)) / 0x40 = a.toNat by omega,
    show 0x80 + ((a.toNat - 0xC0) * 0x40 + (b.toNat - 0x80)) % 0x40 = b.toNat by omega,
    toUInt8_toNat, toUInt8_toNat]

theorem encodeChar_three {a b c : UInt8} {n : Nat}
    (hn : n = ((a.toNat - 0xE0) * 0x40 + (b.toNat - 0x80)) * 0x40 + (c.toNat - 0x80))
    (ha : 0xE0 ≤ a.toNat ∧ a.toNat < 0xF0) (hb : 0x80 ≤ b.toNat ∧ b.toNat ≤ 0xBF)
    (hc : 0x80 ≤ c.toNat ∧ c.toNat ≤ 0xBF) (hlow : 0x800 ≤ n) (hs : n < 0xD800 ∨ 0xDFFF < n) :
    encodeChar (Char.ofNat n) = [a, b, c] := by
  unfold encodeChar
  rw [toNat_ofNat (by omega)]
  simp only
  rw [if_neg (by omega), if_neg (by omega), if_pos (by omega),
    show 0xE0 + n / 0x1000 = a.toNat by omega, show 0x80 + n / 0x40 % 0x40 = b.toNat by omega,
    show 0x80 + n % 0x40 = c.toNat by omega, toUInt8_toNat, toUInt8_toNat, toUInt8_toNat]

theorem encodeChar_four {a b c d : UInt8} {n : Nat}
    (hn : n = (((a.toNat - 0xF0) * 0x40 + (b.toNat - 0x80)) * 0x40 + (c.toNat - 0x80)) * 0x40 +
      (d.toNat - 0x80))
    (ha : 0xF0 ≤ a.toNat ∧ a.toNat ≤ 0xF4) (hb : 0x80 ≤ b.toNat ∧ b.toNat ≤ 0xBF)
    (hc : 0x80 ≤ c.toNat ∧ c.toNat ≤ 0xBF) (hd : 0x80 ≤ d.toNat ∧ d.toNat ≤ 0xBF)
    (hlow : 0x10000 ≤ n) (hhigh : n < 0x110000) :
    encodeChar (Char.ofNat n) = [a, b, c, d] := by
  unfold encodeChar
  rw [toNat_ofNat (by omega)]
  simp only
  rw [if_neg (by omega), if_neg (by omega), if_neg (by omega),
    show 0xF0 + n / 0x40000 = a.toNat by omega, show 0x80 + n / 0x1000 % 0x40 = b.toNat by omega,
    show 0x80 + n / 0x40 % 0x40 = c.toNat by omega, show 0x80 + n % 0x40 = d.toNat by omega,
    toUInt8_toNat, toUInt8_toNat, toUInt8_toNat, toUInt8_toNat]

/-- What a lead byte announces, read off the other way round. -/
theorem followers_cases {n : Nat} {p : Pending} (h : followers n = some p) :
    (0xC2 ≤ n ∧ n < 0xE0 ∧ p = ⟨tail, [], n - 0xC0, 1⟩) ∨
    (0xE0 ≤ n ∧ n < 0xF0 ∧ ∃ lo hi, p = ⟨(lo, hi), [tail], n - 0xE0, 1⟩ ∧ 0x80 ≤ lo ∧ hi ≤ 0xBF ∧
      (n = 0xE0 → 0xA0 ≤ lo) ∧ (n = 0xED → hi ≤ 0x9F)) ∨
    (0xF0 ≤ n ∧ n ≤ 0xF4 ∧ ∃ lo hi, p = ⟨(lo, hi), [tail, tail], n - 0xF0, 1⟩ ∧ 0x80 ≤ lo ∧
      hi ≤ 0xBF ∧ (n = 0xF0 → 0x90 ≤ lo) ∧ (n = 0xF4 → hi ≤ 0x8F)) := by
  unfold followers at h
  by_cases h1 : n < 0xC2
  · simp [h1] at h
  rw [if_neg h1] at h
  by_cases h2 : n < 0xE0
  · rw [if_pos h2, Option.some.injEq] at h
    exact Or.inl ⟨by omega, h2, h.symm⟩
  rw [if_neg h2] at h
  by_cases h3 : n < 0xF0
  · refine Or.inr (Or.inl ⟨by omega, h3, ?_⟩)
    by_cases h4 : n = 0xE0
    · rw [if_pos h4, Option.some.injEq] at h
      exact ⟨0xA0, 0xBF, by simp [← h, h4], by omega, by omega, by omega, by omega⟩
    rw [if_neg h4] at h
    by_cases h5 : n = 0xED
    · rw [if_pos h5, Option.some.injEq] at h
      exact ⟨0x80, 0x9F, by simp [← h, h5], by omega, by omega, by omega, by omega⟩
    rw [if_neg h5, if_pos h3, Option.some.injEq] at h
    exact ⟨0x80, 0xBF, h.symm, by omega, by omega, by omega, by omega⟩
  rw [if_neg (by omega), if_neg (by omega), if_neg h3] at h
  by_cases h6 : n = 0xF0
  · rw [if_pos h6, Option.some.injEq] at h
    exact Or.inr (Or.inr ⟨by omega, by omega, 0x90, 0xBF, by simp [← h, h6], by omega, by omega,
      by omega, by omega⟩)
  rw [if_neg h6] at h
  by_cases h7 : n < 0xF4
  · rw [if_pos h7, Option.some.injEq] at h
    exact Or.inr (Or.inr ⟨by omega, by omega, 0x80, 0xBF, h.symm, by omega, by omega, by omega,
      by omega⟩)
  rw [if_neg h7] at h
  by_cases h8 : n = 0xF4
  · rw [if_pos h8, Option.some.injEq] at h
    exact Or.inr (Or.inr ⟨by omega, by omega, 0x80, 0x8F, by simp [← h, h8], by omega, by omega,
      by omega, by omega⟩)
  · simp [h8] at h

/-- Where a character is read, its bytes stand. -/
theorem charsFrom_none {a : UInt8} {bs : Bytes} {i : Nat} {t : Text}
    (h : charsFrom i (piecesFrom none (a :: bs)) = .ok t) :
    ∃ c rest t' j, a :: bs = encodeChar c ++ rest ∧ t = c :: t' ∧
      charsFrom j (piecesFrom none rest) = .ok t' := by
  rw [piecesFrom, step, begin] at h
  by_cases hlow : a.toNat < 0x80
  · rw [if_pos hlow] at h
    obtain ⟨t', ht, hrest⟩ := charsFrom_char h
    refine ⟨_, bs, t', _, ?_, ht, hrest⟩
    rw [encodeChar, toNat_ofNat (by omega)]
    simp only [hlow, if_true, toUInt8_toNat, List.singleton_append]
  rw [if_neg hlow] at h
  cases hf : followers a.toNat with
  | none => simp [hf, charsFrom] at h
  | some p =>
    simp only [hf, List.nil_append] at h
    rcases followers_cases hf with ⟨hlo, hhi, rfl⟩ | ⟨hlo, hhi, lo, hi, rfl, hl, hh, h0, hd⟩ |
      ⟨hlo, hhi, lo, hi, rfl, hl, hh, h0, h4⟩
    · obtain ⟨b, rest, t', j, rfl, hb, hb', ht, hrest⟩ := charsFrom_last h
      simp only [tail] at hb hb'
      refine ⟨_, rest, t', j, ?_, ht, hrest⟩
      rw [encodeChar_two ⟨hlo, hhi⟩ ⟨hb, hb'⟩]
      rfl
    · obtain ⟨b, rest, rfl, hb, hb', h₂⟩ := charsFrom_more h
      obtain ⟨c, rest, t', j, rfl, hc, hc', ht, hrest⟩ := charsFrom_last h₂
      simp only [tail] at hb hb' hc hc'
      refine ⟨_, rest, t', j, ?_, ht, hrest⟩
      rw [encodeChar_three rfl ⟨hlo, hhi⟩ ⟨by omega, by omega⟩ ⟨hc, hc'⟩ (by omega) (by omega)]
      rfl
    · obtain ⟨b, rest, rfl, hb, hb', h₂⟩ := charsFrom_more h
      obtain ⟨c, rest, rfl, hc, hc', h₃⟩ := charsFrom_more h₂
      obtain ⟨d, rest, t', j, rfl, hd, hd', ht, hrest⟩ := charsFrom_last h₃
      simp only [tail] at hb hb' hc hc' hd hd'
      refine ⟨_, rest, t', j, ?_, ht, hrest⟩
      rw [encodeChar_four rfl ⟨hlo, hhi⟩ ⟨by omega, by omega⟩ ⟨hc, hc'⟩ ⟨hd, hd'⟩ (by omega)
        (by omega)]
      rfl

/-- **Bytes that are a text are the bytes of that text.** -/
theorem encode_of_decode {bs : Bytes} {t : Text} (h : decode bs = .ok t) : encode t = bs := by
  have aux : ∀ (t : Text) (bs : Bytes) (i : Nat), charsFrom i (piecesFrom none bs) = .ok t →
      encode t = bs := by
    intro t
    induction t with
    | nil =>
      intro bs i h
      cases bs with
      | nil => rfl
      | cons a bs =>
        obtain ⟨c, rest, t', j, _, ht, _⟩ := charsFrom_none h
        simp at ht
    | cons c t ih =>
      intro bs i h
      cases bs with
      | nil => simp [piecesFrom, charsFrom] at h
      | cons a bs =>
        obtain ⟨c', rest, t', j, hbs, ht, h⟩ := charsFrom_none h
        obtain ⟨rfl, rfl⟩ := List.cons.inj ht
        rw [hbs, ← ih rest j h]
        rfl
  exact aux t bs 0 h

/-! ### Line ends among the bytes -/

theorem encodeChar_ne_nil (c : Char) : encodeChar c ≠ [] := by
  unfold encodeChar
  simp only
  split
  · simp
  · split
    · simp
    · split <;> simp

/-- A character below 0x80 is its own byte, and its byte is in no other character. -/
theorem mem_encodeChar_iff {a : Nat} (ha : a < 0x80) (c : Char) :
    a.toUInt8 ∈ encodeChar c ↔ c.toNat = a := by
  have hr := toNat_range c
  unfold encodeChar
  generalize c.toNat = n at hr
  have inj : ∀ m, m < 256 → (a.toUInt8 = m.toUInt8 ↔ a = m) := by
    intro m hm
    rw [← UInt8.toNat_inj, toNat_toUInt8 (by omega), toNat_toUInt8 hm]
  simp only
  by_cases h1 : n < 0x80
  · rw [if_pos h1, List.mem_singleton, inj n (by omega)]
    omega
  rw [if_neg h1]
  by_cases h2 : n < 0x800
  · rw [if_pos h2]
    simp only [List.mem_cons, List.not_mem_nil, or_false]
    rw [inj _ (by omega), inj _ (by omega)]
    omega
  rw [if_neg h2]
  by_cases h3 : n < 0x10000
  · rw [if_pos h3]
    simp only [List.mem_cons, List.not_mem_nil, or_false]
    rw [inj _ (by omega), inj _ (by omega), inj _ (by omega)]
    omega
  · rw [if_neg h3]
    simp only [List.mem_cons, List.not_mem_nil, or_false]
    rw [inj _ (by omega), inj _ (by omega), inj _ (by omega), inj _ (by omega)]
    omega

end Utf8
end Nameplate
