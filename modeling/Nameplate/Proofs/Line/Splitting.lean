/-
# The lines of a text

A file that is text can be split into lines before it is encoded or after:
`Line.split` does on characters what `PhysicalLine.split` does on bytes
(`split_encode`), so a strict reading of the file delivers exactly the lines of
its text (`strict_ofText`), and a lossy one the same (`lossy_ofText`).

Not every list of lines is the lines of a file. `Proper` says which are: no
line feed inside a line, no carriage return that the ending would swallow, and
an ending left out only where the file ends, after some text. Splitting
yields such lists only (`proper_split`), and gives back each of them
(`split_join`): this is what lets the lines written by one operation be read
by the next.

Key definitions: `Source.ofText`, `Line.split`, `Line.Proper`.
Key theorems: `Source.strict_ofText`, `Line.join_split`, `Line.proper_split`,
`Line.split_join`.
-/
import Nameplate.Line.Reading
import Nameplate.Proofs.Text.Utf8

namespace Nameplate

/-- A file that holds a text and can be read to its end. -/
def Source.ofText (t : Text) : Source := ⟨Utf8.encode t, none⟩

namespace Line

/-- Puts a character other than a line feed before the first line. -/
def extend (c : Char) : List Line → List Line
  | [] => [⟨[c], .none⟩]
  | l :: ls =>
    if c = '\r' ∧ l = ⟨[], .lineFeed⟩ then ⟨[], .carriageReturnLineFeed⟩ :: ls
    else ⟨c :: l.text, l.ending⟩ :: ls

/-- The lines of a text. -/
def split : Text → List Line
  | [] => []
  | c :: rest => if c = '\n' then ⟨[], .lineFeed⟩ :: split rest else extend c (split rest)

/-- What a line of a file can be. -/
structure IsPhysical (l : Line) : Prop where
  lineFeed_notMem : '\n' ∉ l.text
  noReturn : l.ending = .lineFeed → l.text.getLast? ≠ some '\r'
  ne_nil : l.ending = .none → l.text ≠ []

/-- The lines of a file: only the last one may lack an ending. -/
def Proper : List Line → Prop
  | [] => True
  | l :: ls => l.IsPhysical ∧ (l.ending = .none → ls = []) ∧ Proper ls

theorem Proper.isPhysical : ∀ {ls : List Line}, Proper ls → ∀ l ∈ ls, l.IsPhysical
  | _ :: _, ⟨h, _, _⟩, _, .head _ => h
  | _ :: _, ⟨_, _, h⟩, l, .tail _ hl => h.isPhysical l hl

@[simp] theorem join_nil : join [] = [] := rfl

@[simp] theorem join_cons (l : Line) (ls : List Line) : join (l :: ls) = l.whole ++ join ls := rfl

@[simp] theorem join_append (as bs : List Line) : join (as ++ bs) = join as ++ join bs := by
  simp [join]

/-! ### Splitting loses nothing and yields proper lines -/

theorem join_extend (c : Char) (ls : List Line) : join (extend c ls) = c :: join ls := by
  cases ls with
  | nil => rfl
  | cons l ls =>
    rw [extend]
    split
    next h => simp [whole, h.1, h.2, Ending.text]
    next => simp [whole]

/-- **The lines make up the text.** -/
theorem join_split (t : Text) : join (split t) = t := by
  induction t with
  | nil => rfl
  | cons c rest ih =>
    rw [split]
    split
    next h => simp [whole, Ending.text, ih, h]
    next => rw [join_extend, ih]

theorem proper_extend {c : Char} (hc : c ≠ '\n') {ls : List Line} (h : Proper ls) :
    Proper (extend c ls) := by
  cases ls with
  | nil => exact ⟨⟨by simp [Ne.symm hc], by simp, by simp⟩, fun _ => rfl, trivial⟩
  | cons l ls =>
    obtain ⟨hl, hlast, hls⟩ := h
    rw [extend]
    split
    next => exact ⟨⟨by simp, by simp, by simp⟩, by simp, hls⟩
    next hr =>
      refine ⟨⟨?_, ?_, by simp⟩, hlast, hls⟩
      · simp [Ne.symm hc, hl.lineFeed_notMem]
      · intro he hg
        cases ht : l.text with
        | nil =>
          -- the carriage return would stand directly before the line feed
          rw [ht] at hg
          exact hr ⟨by simpa using hg, by cases l; simp_all⟩
        | cons d t =>
          apply hl.noReturn he
          rw [ht] at hg ⊢
          simpa [List.getLast?_cons_cons] using hg

theorem proper_split (t : Text) : Proper (split t) := by
  induction t with
  | nil => trivial
  | cons c rest ih =>
    rw [split]
    split
    next => exact ⟨⟨by simp, by simp, by simp⟩, by simp, ih⟩
    next h => exact proper_extend h ih

/-! ### Proper lines are read back -/

theorem split_append {a : Text} (h : '\n' ∉ a) (t : Text) :
    split (a ++ t) = a.foldr extend (split t) := by
  induction a with
  | nil => rfl
  | cons c a ih =>
    simp only [List.mem_cons, not_or] at h
    rw [List.cons_append, split, if_neg (Ne.symm h.1), ih h.2, List.foldr_cons]

/-- Characters join the first line, unless the last of them is a carriage return that a bare line
feed follows. -/
theorem foldr_extend {a : Text} {l : Line} (h : l = ⟨[], .lineFeed⟩ → a.getLast? ≠ some '\r')
    (ls : List Line) : a.foldr extend (l :: ls) = ⟨a ++ l.text, l.ending⟩ :: ls := by
  induction a with
  | nil => rfl
  | cons c a ih =>
    cases a with
    | nil =>
      rw [List.foldr_cons, List.foldr_nil, extend, if_neg]
      · rfl
      · rintro ⟨rfl, hl⟩
        exact h hl rfl
    | cons d a =>
      have hd : l = ⟨[], .lineFeed⟩ → (d :: a).getLast? ≠ some '\r' := by
        simpa [List.getLast?_cons_cons] using h
      rw [List.foldr_cons, ih hd, extend, if_neg (by simp)]
      rfl

theorem foldr_extend_nil {a : Text} (h : a ≠ []) : a.foldr extend [] = [⟨a, .none⟩] := by
  induction a with
  | nil => exact absurd rfl h
  | cons c a ih =>
    cases a with
    | nil => rfl
    | cons d a => rw [List.foldr_cons, ih (by simp), extend, if_neg (by simp)]

/-- **Proper lines are the lines of the text they make up.** -/
theorem split_join : ∀ {ls : List Line}, Proper ls → split (join ls) = ls
  | [], _ => rfl
  | ⟨a, .lineFeed⟩ :: ls, ⟨hl, _, hls⟩ => by
    have ih := split_join hls
    rw [join_cons, whole, List.append_assoc, split_append hl.lineFeed_notMem]
    simp only [Ending.text, List.cons_append, List.nil_append, split, if_true, ih]
    rw [foldr_extend fun _ => hl.noReturn rfl, List.append_nil]
  | ⟨a, .carriageReturnLineFeed⟩ :: ls, ⟨hl, _, hls⟩ => by
    have ih := split_join hls
    rw [join_cons, whole, List.append_assoc, split_append hl.lineFeed_notMem]
    simp only [Ending.text, List.cons_append, List.nil_append, split, if_true, ih]
    rw [if_neg (by decide), extend, if_pos ⟨rfl, rfl⟩, foldr_extend (by simp), List.append_nil]
  | ⟨a, .none⟩ :: ls, ⟨hl, hlast, _⟩ => by
    obtain rfl := hlast rfl
    rw [join_cons, whole, List.append_assoc, split_append hl.lineFeed_notMem]
    exact foldr_extend_nil (hl.ne_nil rfl)

/-! ### Splitting and encoding -/

/-- A line as it stands in a file. -/
def encoded (l : Line) : PhysicalLine := ⟨Utf8.encode l.text, l.ending⟩

end Line

namespace PhysicalLine

theorem split_append {bs : Bytes} (h : 0x0A ∉ bs) (rest : Bytes) :
    split (bs ++ rest) = bs.foldr extend (split rest) := by
  induction bs with
  | nil => rfl
  | cons b bs ih =>
    simp only [List.mem_cons, not_or] at h
    rw [List.cons_append, split, if_neg (Ne.symm h.1), ih h.2, List.foldr_cons]

/-- Bytes without a carriage return join the first line. -/
theorem foldr_extend {bs : Bytes} (h : 0x0D ∉ bs) (l : PhysicalLine) (ls : List PhysicalLine) :
    bs.foldr extend (l :: ls) = ⟨bs ++ l.text, l.ending⟩ :: ls := by
  induction bs with
  | nil => rfl
  | cons b bs ih =>
    simp only [List.mem_cons, not_or] at h
    rw [List.foldr_cons, ih h.2, extend, if_neg (fun hb => h.1 hb.1.symm)]
    rfl

theorem foldr_extend_nil {bs : Bytes} (h : bs ≠ []) : bs.foldr extend [] = [⟨bs, .none⟩] := by
  induction bs with
  | nil => exact absurd rfl h
  | cons b bs ih =>
    cases bs with
    | nil => rfl
    | cons b' bs => rw [List.foldr_cons, ih (by simp), extend, if_neg (by simp)]

end PhysicalLine

namespace Line

theorem encoded_eq_lineFeed_iff (l : Line) :
    l.encoded = ⟨[], .lineFeed⟩ ↔ l = ⟨[], .lineFeed⟩ := by
  obtain ⟨t, e⟩ := l
  have ht : Utf8.encode t = [] ↔ t = [] :=
    ⟨fun h => Utf8.encode_injective h, fun h => by rw [h]; rfl⟩
  simp [encoded, ht]

/-- The bytes of one character join the first line as the character does. -/
theorem foldr_extend_encodeChar {c : Char} (hc : c ≠ '\n') (ls : List Line) :
    (Utf8.encodeChar c).foldr PhysicalLine.extend (ls.map encoded) = (extend c ls).map encoded := by
  by_cases hr : c = '\r'
  · subst hr
    cases ls with
    | nil => rfl
    | cons l ls =>
      have hb : Utf8.encodeChar '\r' = [0x0D] := by decide
      rw [hb, List.map_cons, List.foldr_cons, List.foldr_nil, PhysicalLine.extend, extend]
      by_cases hl : l = ⟨[], .lineFeed⟩
      · rw [if_pos ⟨rfl, (encoded_eq_lineFeed_iff l).2 hl⟩, if_pos ⟨rfl, hl⟩]
        rfl
      · rw [if_neg fun h => hl ((encoded_eq_lineFeed_iff l).1 h.2), if_neg fun h => hl h.2]
        rfl
  · have h13 : (0x0D : UInt8) ∉ Utf8.encodeChar c := by
      intro hm
      apply hr
      rw [← Char.ofNat_toNat c, (Utf8.mem_encodeChar_iff (a := 0x0D) (by omega) c).1 hm]
    cases ls with
    | nil =>
      rw [List.map_nil, PhysicalLine.foldr_extend_nil (Utf8.encodeChar_ne_nil c)]
      simp [extend, encoded, Utf8.encode]
    | cons l ls =>
      rw [List.map_cons, PhysicalLine.foldr_extend h13, extend, if_neg fun h => hr h.1]
      rfl

/-- **Lines are cut alike before and after encoding.** -/
theorem split_encode (t : Text) : PhysicalLine.split (Utf8.encode t) = (split t).map encoded := by
  induction t with
  | nil => rfl
  | cons c rest ih =>
    have hcons : Utf8.encode (c :: rest) = Utf8.encodeChar c ++ Utf8.encode rest := rfl
    rw [hcons, split]
    by_cases hc : c = '\n'
    · subst hc
      have hb : Utf8.encodeChar '\n' = [0x0A] := by decide
      rw [hb, List.singleton_append, PhysicalLine.split, if_pos rfl, if_pos rfl, ih]
      rfl
    · have h10 : (0x0A : UInt8) ∉ Utf8.encodeChar c := by
        intro hm
        apply hc
        rw [← Char.ofNat_toNat c, (Utf8.mem_encodeChar_iff (a := 0x0A) (by omega) c).1 hm]
      rw [PhysicalLine.split_append h10, if_neg hc, ih, foldr_extend_encodeChar hc]

end Line

namespace Source

theorem strictFrom_encoded (fault : Option ReadFault) : ∀ (n : Nat) (ls : List Line),
    strictFrom fault n (ls.map Line.encoded) = ⟨ls, fault⟩
  | _, [] => rfl
  | n, l :: ls => by
    rw [List.map_cons, strictFrom]
    simp only [Line.encoded, Utf8.decode_encode]
    rw [strictFrom_encoded fault (n + 1) ls]
    rfl

/-- **A strict reading delivers the lines of the text.** -/
theorem strict_ofText (t : Text) : (ofText t).strict = ⟨Line.split t, none⟩ := by
  simp only [strict, lines, fault, ofText, Line.split_encode, Option.map_none]
  exact strictFrom_encoded none 1 _

/-- A lossy reading of a text loses nothing. -/
theorem lossy_ofText (t : Text) : (ofText t).lossy = ⟨Line.split t, none⟩ := by
  simp only [lossy, lines, fault, ofText, Line.split_encode, Option.map_none, List.map_map,
    Function.comp_def, Line.encoded, Utf8.decodeLossy_encode]
  rw [List.map_id']

end Source
end Nameplate
