/-
# Texts

A text is a list of characters, and every rule of the library that looks into
text is a recursion on that list. Bytes appear only where files are read and
written (`Nameplate.Text.Utf8`). A string literal stands for the text of its
characters.

What counts as blank is Unicode's White_Space property; `trim` and `isBlank`
go by it. Upper case, by contrast, touches ASCII letters only.

Key definitions: `Text.trim`, `Text.isBlank`, `Text.contains`,
`Text.splitAtFirst`, `Text.replace`, `Text.byteLength`.
-/

namespace Nameplate

/-- A sequence of characters. -/
abbrev Text := List Char

/-- The contents of a file. -/
abbrev Bytes := List UInt8

instance : Coe String Text := ⟨String.toList⟩

/-- The characters with the property White_Space. -/
def blankRanges : List (Nat × Nat) :=
  [(0x09, 0x0D), (0x20, 0x20), (0x85, 0x85), (0xA0, 0xA0), (0x1680, 0x1680), (0x2000, 0x200A),
    (0x2028, 0x2029), (0x202F, 0x202F), (0x205F, 0x205F), (0x3000, 0x3000)]

/-- Whether a character has the property White_Space. -/
def isBlankChar (c : Char) : Bool :=
  blankRanges.any fun (low, high) => low ≤ c.toNat && c.toNat ≤ high

namespace Text

/-- The text without the blanks it begins with. -/
def trimStart (t : Text) : Text := t.dropWhile isBlankChar

/-- The text without the blanks it ends with. -/
def trimEnd (t : Text) : Text := (t.reverse.dropWhile isBlankChar).reverse

/-- The text without the blanks at its two ends. -/
def trim (t : Text) : Text := trimEnd (trimStart t)

/-- Whether nothing but blanks is in the text; the empty text is blank. -/
def isBlank (t : Text) : Bool := t.all isBlankChar

/-- Dropping a beginning leaves nothing exactly when all of the text belongs to it. -/
theorem dropWhile_eq_nil_iff (p : Char → Bool) : ∀ t : Text, t.dropWhile p = [] ↔ t.all p = true
  | [] => by simp
  | c :: rest => by
    cases h : p c <;> simp [List.dropWhile, h, dropWhile_eq_nil_iff p rest]

theorem trimStart_eq_nil_iff (t : Text) : trimStart t = [] ↔ isBlank t = true :=
  dropWhile_eq_nil_iff isBlankChar t

/-- A text is blank when trimming leaves nothing of it. -/
theorem trim_eq_nil_iff (t : Text) : trim t = [] ↔ isBlank t = true := by
  rw [← trimStart_eq_nil_iff, trim, trimEnd, List.reverse_eq_nil_iff, dropWhile_eq_nil_iff,
    List.all_reverse]
  refine ⟨fun h => ?_, fun h => by simp [h]⟩
  cases hs : trimStart t with
  | nil => rfl
  | cons c rest =>
    have hc : isBlankChar c = true := by simp_all
    have := List.head?_dropWhile_not isBlankChar t
    rw [show t.dropWhile isBlankChar = c :: rest from hs] at this
    simp [hc] at this

/-- The trimmed text, unless it is empty. -/
def nonBlank? (t : Text) : Option Text := if isBlank t then none else some (trim t)

/-- The text with its ASCII letters in upper case. -/
def upper (t : Text) : Text := t.map Char.toUpper

/-- Whether `needle` occurs in the text; the empty text occurs in every text. -/
def contains (needle : Text) : Text → Bool
  | [] => needle.isEmpty
  | c :: rest => needle.isPrefixOf (c :: rest) || contains needle rest

/-- `contains` decides whether one text is an infix of the other. -/
theorem contains_iff (needle t : Text) : contains needle t = true ↔ needle <:+: t := by
  induction t with
  | nil => cases needle <;> simp [contains]
  | cons c rest ih =>
    rw [contains, Bool.or_eq_true, ih, List.isPrefixOf_iff_prefix, List.infix_cons_iff]

/-- Whether the text contains one of the markers. -/
def containsAny (markers : List Text) (t : Text) : Bool := markers.any fun m => contains m t

/-- The texts before and after the first `c`, when there is one. -/
def splitAtFirst (c : Char) : Text → Option (Text × Text)
  | [] => none
  | x :: rest => if x = c then some ([], rest) else (splitAtFirst c rest).map fun (a, b) => (x :: a, b)

theorem eq_of_splitAtFirst {c : Char} : ∀ {t a b : Text}, splitAtFirst c t = some (a, b) →
    t = a ++ c :: b ∧ c ∉ a
  | [], _, _, h => by simp [splitAtFirst] at h
  | x :: rest, a, b, h => by
    unfold splitAtFirst at h
    split at h
    next hx =>
      simp only [Option.some.injEq, Prod.mk.injEq] at h
      obtain ⟨rfl, rfl⟩ := h
      simp [hx]
    next hx =>
      obtain ⟨⟨a', b'⟩, h', he⟩ := Option.map_eq_some_iff.1 h
      simp only [Prod.mk.injEq] at he
      obtain ⟨rfl, rfl⟩ := he
      obtain ⟨hr, hn⟩ := eq_of_splitAtFirst h'
      exact ⟨by simp [hr], by simp [hn, Ne.symm hx]⟩

theorem splitAtFirst_append {c : Char} {a b : Text} (h : c ∉ a) :
    splitAtFirst c (a ++ c :: b) = some (a, b) := by
  induction a with
  | nil => simp [splitAtFirst]
  | cons x a ih =>
    simp only [List.mem_cons, not_or] at h
    simp [splitAtFirst, Ne.symm h.1, ih h.2]

theorem splitAtFirst_eq_none_iff (c : Char) (t : Text) : splitAtFirst c t = none ↔ c ∉ t := by
  induction t with
  | nil => simp [splitAtFirst]
  | cons x t ih =>
    unfold splitAtFirst
    split
    next h => simp [h]
    next h => simp [ih, Ne.symm h]

/-- Every `c` becomes the text `new`. -/
def replace (c : Char) (new : Text) (t : Text) : Text := t.flatMap fun x => if x = c then new else [x]

/-- The number of bytes the text takes in UTF-8. -/
def byteLength : Text → Nat
  | [] => 0
  | c :: rest => c.utf8Size + byteLength rest

@[simp] theorem byteLength_append (s t : Text) : byteLength (s ++ t) = byteLength s + byteLength t := by
  induction s with
  | nil => simp [byteLength]
  | cons c s ih => simp [byteLength, ih, Nat.add_assoc]

/-- The longest beginning of the text that takes at most `budget` bytes, and the rest. A
character is never cut in two. -/
def splitAtBytes : Nat → Text → Text × Text
  | _, [] => ([], [])
  | budget, c :: rest =>
    if c.utf8Size ≤ budget then
      let (a, b) := splitAtBytes (budget - c.utf8Size) rest
      (c :: a, b)
    else ([], c :: rest)

theorem splitAtBytes_append : ∀ (budget : Nat) (t : Text),
    (splitAtBytes budget t).1 ++ (splitAtBytes budget t).2 = t
  | _, [] => rfl
  | budget, c :: rest => by
    unfold splitAtBytes
    split
    · simpa using splitAtBytes_append (budget - c.utf8Size) rest
    · rfl

theorem byteLength_splitAtBytes_le : ∀ (budget : Nat) (t : Text),
    byteLength (splitAtBytes budget t).1 ≤ budget
  | _, [] => by simp [splitAtBytes, byteLength]
  | budget, c :: rest => by
    unfold splitAtBytes
    split
    · have := byteLength_splitAtBytes_le (budget - c.utf8Size) rest
      simp only [byteLength]
      omega
    · simp [byteLength]

/-- The texts joined by a separator. -/
def join (separator : Text) (ts : List Text) : Text := List.intercalate separator ts

/-- A number in decimal digits. -/
def ofNat (n : Nat) : Text := Nat.toDigits 10 n

theorem isDigit_of_mem_ofNat {n : Nat} {c : Char} (h : c ∈ ofNat n) : c.isDigit = true :=
  Nat.isDigit_of_mem_toDigits (by decide) (by decide) h

/-- `true` or `false`. -/
def ofBool (b : Bool) : Text := if b then "true" else "false"

end Text

end Nameplate
