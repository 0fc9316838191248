/-
# The quoted value as a lens

On a line with two double quotes, `Text.quoted` reads the value and `Text.mapQuoted`
puts another in its place. The first and the last quote stay the outermost ones whatever
is put between them, so the new value is read back even if it brings quotes of its own.
Two changes, one after the other, are one, and a change that keeps the value keeps the
line (`Text.isLens_of_count`).

The value is found by byte offsets. A double quote is a byte of its own and part of no
other character, so the offsets are those of the first and the last such byte
(`Quoted.outermost_line`); all three parts of the line begin and end at character
boundaries, and the two outer ones are copied byte by byte.

On a line without two quotes two changes are not one: the first may bring the quotes,
and then the second sees only what is between them.

Key definitions: `Utf8.Outermost`, `Text.IsLens`.
Key theorems: `Quoted.outermost_line`, `Text.isLens_of_count`.
-/
import Nameplate.Proofs.Text.Boundary
import Nameplate.Proofs.Version.Cut

namespace Nameplate

/-! ### The two outer quotes among the bytes of a line -/

namespace Utf8

/-- The byte of a double quote. -/
def quoteByte : UInt8 := 0x22

/-- A text has the byte of a quote just where it has a quote. -/
theorem quoteByte_mem_encode_iff (t : Text) : quoteByte ∈ encode t ↔ '"' ∈ t := by
  have hchar (c : Char) : quoteByte ∈ encodeChar c ↔ c = '"' := by
    rw [← Char.toNat_inj]
    exact mem_encodeChar_iff (by decide) c
  rw [encode, List.mem_flatMap]
  constructor
  · rintro ⟨c, hc, hmem⟩
    rwa [(hchar c).1 hmem] at hc
  · intro h
    exact ⟨_, h, (hchar _).2 rfl⟩

/-- The bytes from `start` to `stop` are those between the first and the last quote, and both
offsets are character boundaries. -/
structure Outermost (bs : Bytes) (start stop : Nat) : Prop where
  le : start ≤ stop
  first : ∃ before, bs.take start = before ++ [quoteByte] ∧ quoteByte ∉ before
  last : ∃ after, bs.drop stop = quoteByte :: after ∧ quoteByte ∉ after
  start_isBoundary : isBoundary bs start = true
  stop_isBoundary : isBoundary bs stop = true

end Utf8

namespace Quoted

variable {q : Quoted}

theorem line_eq (q : Quoted) : q.line = q.before ++ ['"'] ++ q.value ++ '"' :: q.after := by
  simp only [line, List.append_assoc, List.cons_append, List.nil_append]

/-- The bytes of a line: those up to its first quote, those of its value, and those from its last
quote on. -/
theorem encode_line (q : Quoted) :
    Utf8.encode q.line =
      Utf8.encode (q.before ++ ['"']) ++ Utf8.encode q.value ++ Utf8.encode ('"' :: q.after) := by
  rw [line_eq, Utf8.encode_append, Utf8.encode_append]

/-- The offsets of the value cut the bytes of a line into these three. -/
structure Sliced (q : Quoted) (start stop : Nat) : Prop where
  before : (Utf8.encode q.line).take start = Utf8.encode (q.before ++ ['"'])
  value : ((Utf8.encode q.line).take stop).drop start = Utf8.encode q.value
  after : (Utf8.encode q.line).drop stop = Utf8.encode ('"' :: q.after)

/-- **The value lies between the first and the last quote byte of its line.** -/
theorem outermost_line (hb : '"' ∉ q.before) (ha : '"' ∉ q.after) :
    ∃ start stop, Text.quotedExtent q.line = some (start, stop) ∧ q.Sliced start stop ∧
      Utf8.Outermost (Utf8.encode q.line) start stop := by
  have hopen : Text.byteLength (q.before ++ ['"']) = Text.byteLength q.before + 1 :=
    Stamping.byteLength_quote q.before []
  have hclose : Text.byteLength (q.before ++ ['"'] ++ q.value) =
      Text.byteLength (q.before ++ ['"']) + Text.byteLength q.value :=
    Text.byteLength_append _ _
  have hextent : Text.quotedExtent q.line =
      some (Text.byteLength (q.before ++ ['"']),
        Text.byteLength (q.before ++ ['"'] ++ q.value)) := by
    rw [Text.quotedExtent, split?_line hb ha, Option.map_some, hclose, hopen]
  have hstart : q.line = q.before ++ ['"'] ++ (q.value ++ '"' :: q.after) := by
    rw [line_eq, List.append_assoc]
  have hsliced : q.Sliced (Text.byteLength (q.before ++ ['"']))
      (Text.byteLength (q.before ++ ['"'] ++ q.value)) := by
    refine ⟨?_, ?_, ?_⟩
    · rw [hstart, Utf8.take_encode_append]
    · rw [line_eq, Utf8.take_encode_append, Utf8.drop_encode_append]
    · rw [line_eq, Utf8.drop_encode_append]
  refine ⟨_, _, hextent, hsliced, ?_, ?_, ?_, ?_, ?_⟩
  · omega
  · refine ⟨Utf8.encode q.before, ?_, fun hm => hb ((Utf8.quoteByte_mem_encode_iff _).1 hm)⟩
    rw [hsliced.before, Utf8.encode_append]
    rfl
  · refine ⟨Utf8.encode q.after, ?_, fun hm => ha ((Utf8.quoteByte_mem_encode_iff _).1 hm)⟩
    rw [hsliced.after]
    rfl
  · rw [hstart]
    exact Utf8.isBoundary_byteLength _ _
  · rw [line_eq]
    exact Utf8.isBoundary_byteLength _ _

end Quoted

/-! ### Reading and changing the value -/

namespace Text

/-- Reading and changing the value of a line, whose bytes are those from `start` to `stop`. -/
structure IsLens (line : Text) (start stop : Nat) : Prop where
  extent : quotedExtent line = some (start, stop)
  outermost : Utf8.Outermost (Utf8.encode line) start stop
  value : Utf8.encode (quoted line) = ((Utf8.encode line).take stop).drop start
  quotedOrAll_eq : quotedOrAll line = quoted line
  /-- The new value is read back, quotes in it included. -/
  quoted_mapQuoted : ∀ f, quoted (mapQuoted f line) = f (quoted line)
  /-- The bytes around the value are kept. -/
  encode_mapQuoted : ∀ f, Utf8.encode (mapQuoted f line) =
    (Utf8.encode line).take start ++ Utf8.encode (f (quoted line)) ++ (Utf8.encode line).drop stop
  mapQuoted_mapQuoted : ∀ f g, mapQuoted g (mapQuoted f line) = mapQuoted (g ∘ f) line
  mapQuoted_id : mapQuoted id line = line

/-- **On a line with two quotes the value is a lens.** -/
theorem isLens_of_count {line : Text} (h : 2 ≤ line.count '"') :
    ∃ start stop, IsLens line start stop := by
  obtain ⟨q, hq⟩ : ∃ q, Quoted.split? line = some q := by
    rw [← Option.ne_none_iff_exists', ne_eq, Quoted.split?_eq_none_iff]
    omega
  obtain ⟨rfl, hb, ha⟩ := Quoted.line_of_split? hq
  have hvalue : quoted q.line = q.value := by rw [quoted, hq]
  have hmap (f : Text → Text) : mapQuoted f q.line = Quoted.line { q with value := f q.value } :=
    mapQuoted_line hb ha f
  obtain ⟨start, stop, hextent, hsliced, houter⟩ := Quoted.outermost_line hb ha
  refine ⟨start, stop, hextent, houter, ?_, ?_, fun f => ?_, fun f => ?_, fun f g => ?_, ?_⟩
  · rw [hvalue, hsliced.value]
  · rw [hvalue, quotedOrAll_line hb ha]
  · rw [hvalue, Text.quoted_mapQuoted hq]
  · calc Utf8.encode (mapQuoted f q.line)
        = Utf8.encode (q.before ++ ['"']) ++ Utf8.encode (f q.value) ++
            Utf8.encode ('"' :: q.after) := by
          rw [hmap, Quoted.encode_line]
      _ = (Utf8.encode q.line).take start ++ Utf8.encode (f (quoted q.line)) ++
            (Utf8.encode q.line).drop stop := by
          rw [hsliced.before, hsliced.after, hvalue]
  · have htwice := mapQuoted_line (q := { q with value := f q.value }) hb ha g
    calc mapQuoted g (mapQuoted f q.line)
        = Quoted.line { q with value := g (f q.value) } := by rw [hmap, htwice]
      _ = mapQuoted (g ∘ f) q.line := (hmap (g ∘ f)).symm
  · exact hmap id

/-- Without two quotes a change may bring them, and the next one does not see all it made. -/
example :
    let twice (t : Text) : Text := t ++ t
    mapQuoted twice (mapQuoted (fun v => '"' :: v ++ ['"']) ['1']) ≠
      mapQuoted (fun v => twice ('"' :: v ++ ['"'])) ['1'] := by
  decide

/-- A line with characters of two and three bytes, and a new value with a quote of its own. -/
theorem isLens_of_count_multibyte :
    2 ≤ (List.count '"' ("ü = \"1\"€\" é".toList)) ∧
      ∃ start stop, IsLens "ü = \"1\"€\" é" start stop ∧ (start, stop) = (6, 11) ∧
        quoted (mapQuoted (fun v => v ++ "\"ß".toList) "ü = \"1\"€\" é") = "1\"€\"ß".toList := by
  have hcount : 2 ≤ List.count '"' "ü = \"1\"€\" é".toList := by decide
  obtain ⟨start, stop, hlens⟩ := isLens_of_count hcount
  have hextent : quotedExtent "ü = \"1\"€\" é" = some (6, 11) := by decide
  have hvalue : quoted "ü = \"1\"€\" é" = "1\"€".toList := by decide
  refine ⟨hcount, start, stop, hlens, ?_, ?_⟩
  · exact Option.some.inj (hlens.extent.symm.trans hextent)
  · rw [hlens.quoted_mapQuoted, hvalue]
    rfl

end Text
end Nameplate
