/-
# Decoding line by line

Files are decoded one line at a time, after they have been cut at the line
feeds. That comes to the same as decoding them as a whole (`Source.ReadsAsWhole`):
the strict reading refuses a line exactly where the bytes are no text, and it
names the first line that is none; where the bytes are a text, both readings
deliver the lines of that text; and the lossy lines with their endings make up
the lossy text of all bytes, each maximal stretch that is no character having
been replaced by one U+FFFD.

The reason is that a line feed and a carriage return are bytes below 0x80: no
longer character contains one, and a character that is cut short before one is
replaced as it would be at the end of its line (`PhysicalLine.replaced_join`).

Key definition: `Source.ReadsAsWhole`.
Key theorem: `Source.readsAsWhole`.
-/
import Nameplate.Proofs.Line.Physical
import Nameplate.Proofs.Line.Strict
import Nameplate.Proofs.Text.Lossy

namespace Nameplate

/-- The bytes are those of some text. -/
def Utf8.IsText (bs : Bytes) : Prop := ∃ t, Utf8.encode t = bs

theorem Utf8.not_isText_of_decode {bs : Bytes} {fault : Fault} (h : decode bs = .error fault) :
    ¬ IsText bs := by
  rintro ⟨t, rfl⟩
  rw [decode_encode] at h
  cases h

theorem Ending.encode_text (e : Ending) : Utf8.encode e.text = e.bytes := by
  cases e <;> decide

namespace PhysicalLine

/-- The bytes of lines of text are the bytes of the text they make up. -/
theorem join_encoded (ls : List Line) : join (ls.map Line.encoded) = Utf8.encode (Line.join ls) := by
  induction ls with
  | nil => rfl
  | cons l ls ih =>
    have hjoin : join ((l :: ls).map Line.encoded) =
        Utf8.encode l.text ++ l.ending.bytes ++ join (ls.map Line.encoded) := rfl
    rw [hjoin, ih, Line.join_cons, Line.whole, Utf8.encode_append, Utf8.encode_append,
      Ending.encode_text]

/-- The line as a lossy reading delivers it. -/
def lossy (l : PhysicalLine) : Line := ⟨Utf8.decodeLossy l.text, l.ending⟩

/-- **Lines can be decoded apart**: only the last one may lack an ending, and the bytes of an ending
part what is before them from what is behind. -/
theorem replaced_join : ∀ {ls : List PhysicalLine}, (∀ l ∈ ls.dropLast, l.ending ≠ .none) →
    Utf8.Replaced (join ls) (Line.join (ls.map lossy))
  | [], _ => .nil
  | ⟨text, ending⟩ :: ls, h => by
    have htext := Utf8.replaced_decodeLossy text
    have hrest : Utf8.Replaced (join ls) (Line.join (ls.map lossy)) := by
      refine replaced_join fun l hl => h l ?_
      cases ls with
      | nil => cases hl
      | cons next rest => exact List.mem_cons_of_mem _ hl
    cases ending with
    | lineFeed =>
      have hparted := htext.append_low (b := 0x0A) (by decide) hrest
      simpa [join, bytes, Ending.bytes, lossy, Line.whole, Ending.text] using hparted
    | carriageReturnLineFeed =>
      have hfed := Utf8.Replaced.append_low (b := 0x0A) (by decide) .nil hrest
      have hparted := htext.append_low (b := 0x0D) (by decide) hfed
      simpa [join, bytes, Ending.bytes, lossy, Line.whole, Ending.text] using hparted
    | none =>
      cases ls with
      | nil => simpa [join, bytes, Ending.bytes, lossy, Line.whole, Ending.text] using htext
      | cons next rest => exact absurd rfl (h _ List.mem_cons_self)

end PhysicalLine

/-- Where nothing breaks, a strict reading is the whole file or ends in the line it names. -/
theorem StrictReading.none_cases {ls : List PhysicalLine} {r : Reading}
    (h : StrictReading none ls r) :
    r.failure = none ∧ ls = r.lines.map Line.encoded ∨
      ∃ l after fault, ls = r.lines.map Line.encoded ++ l :: after ∧
        Utf8.decode l.text = .error fault ∧
        r = ⟨r.lines, some (.notText (r.lines.length + 1) fault)⟩ := by
  cases h with
  | whole texts => exact Or.inl ⟨rfl, rfl⟩
  | @upTo texts l fault rest hf => exact Or.inr ⟨l, rest, fault, rfl, hf, rfl⟩

namespace Source

/-- Reading the lines of a file one by one comes to what reading all of its bytes at once comes
to. -/
structure ReadsAsWhole (bs : Bytes) : Prop where
  accepted : (strict ⟨bs, none⟩).failure = none ↔ Utf8.IsText bs
  refused : ¬ Utf8.IsText bs → ∃ (before : List Line) (l : PhysicalLine) (after : List PhysicalLine)
    (fault : Utf8.Fault), PhysicalLine.split bs = before.map Line.encoded ++ l :: after ∧
      ¬ Utf8.IsText l.text ∧ Utf8.decode l.text = .error fault ∧
      strict ⟨bs, none⟩ = ⟨before, some (.notText (before.length + 1) fault)⟩
  alike : Utf8.IsText bs → strict ⟨bs, none⟩ = lossy ⟨bs, none⟩
  whole : Line.join (lossy ⟨bs, none⟩).lines = Utf8.decodeLossy bs
  replaced : Utf8.Replaced bs (Line.join (lossy ⟨bs, none⟩).lines)

theorem isText_of_split {bs : Bytes} {ls : List Line}
    (h : PhysicalLine.split bs = ls.map Line.encoded) : Utf8.IsText bs :=
  ⟨Line.join ls, by rw [← PhysicalLine.join_encoded, ← h, PhysicalLine.join_split]⟩

/-- **Decoding line by line is decoding as a whole**, for all bytes. -/
theorem readsAsWhole (bs : Bytes) : ReadsAsWhole bs := by
  have htext : Utf8.IsText bs →
      strict ⟨bs, none⟩ = lossy ⟨bs, none⟩ ∧ (strict ⟨bs, none⟩).failure = none := by
    rintro ⟨t, rfl⟩
    have hstrict := strict_ofText t
    have hlossy := lossy_ofText t
    rw [ofText] at hstrict hlossy
    rw [hstrict, hlossy]
    exact ⟨rfl, rfl⟩
  have hreplaced : Utf8.Replaced bs (Line.join (lossy ⟨bs, none⟩).lines) := by
    have hlines := PhysicalLine.replaced_join (PhysicalLine.areLines_split bs).ended
    rwa [PhysicalLine.join_split] at hlines
  have hlast : (⟨bs, none⟩ : Source).fault = none := rfl
  have hlines : (⟨bs, none⟩ : Source).lines = PhysicalLine.split bs := rfl
  have hreading := (strict_eq_iff (s := ⟨bs, none⟩)).1 rfl
  rw [hlast, hlines] at hreading
  have hwhole : Line.join (lossy ⟨bs, none⟩).lines = Utf8.decodeLossy bs :=
    (Utf8.replaced_iff.1 hreplaced).symm
  rcases hreading.none_cases with ⟨hnone, hls⟩ | ⟨l, after, fault, hls, hf, hr⟩
  · have ht : Utf8.IsText bs := isText_of_split hls
    exact ⟨iff_of_true hnone ht, fun hno => absurd ht hno, fun _ => (htext ht).1, hwhole, hreplaced⟩
  · have hfailed : (strict ⟨bs, none⟩).failure ≠ none := by
      rw [hr]
      exact Option.some_ne_none _
    have hno : ¬ Utf8.IsText bs := fun ht => hfailed (htext ht).2
    have hl : ¬ Utf8.IsText l.text := Utf8.not_isText_of_decode hf
    exact ⟨iff_of_false hfailed hno, fun _ => ⟨_, l, after, fault, hls, hl, hf, hr⟩,
      fun ht => absurd ht hno, hwhole, hreplaced⟩

/-- Characters that are cut short by both kinds of ending and by the end of the file. -/
example : (lossy ⟨[0xE4, 0xB8, 0x0D, 0x0A, 0xED, 0xA0, 0x0A, 0xF0, 0x9F], none⟩).lines =
    [⟨"\uFFFD", .carriageReturnLineFeed⟩, ⟨"\uFFFD\uFFFD", .lineFeed⟩, ⟨"\uFFFD", .none⟩] := by
  decide +kernel

end Source
end Nameplate
