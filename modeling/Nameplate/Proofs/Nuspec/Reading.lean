/-
# Reading a package document

A package document determines its package. The proof is a decoder, which takes
a document apart by its markup: it knows the lines of a document and the
entities of XML, and nothing else. Values hold no markup once they are
escaped, so a value ends at the first `<` or quote, whatever text it came
from, and a line of a section is never taken for the end of it.

Each part of the decoder accepts just what the document has in its place
(`Text.Reads`), so the whole accepts documents only, and reads of each the
package that it was made from (`Package.read?_document`).

Key definitions: `Xml.readChar?`, `Package.read?`.
Key theorem: `Package.read?_document`.
-/
import Nameplate.Nuspec.Document
import Nameplate.Proofs.Text.Reader

namespace Nameplate

open Text

namespace Xml

/-! ### Values -/

/-- The characters that are never written as they are. -/
def markup : List Char := ['&', '<', '>', '"', '\'']

/-- The character of an entity, its ampersand left out. -/
def readEntity? : Text → Option (Char × Text)
  | 'a' :: 'm' :: 'p' :: ';' :: rest => some ('&', rest)
  | 'l' :: 't' :: ';' :: rest => some ('<', rest)
  | 'g' :: 't' :: ';' :: rest => some ('>', rest)
  | 'q' :: 'u' :: 'o' :: 't' :: ';' :: rest => some ('"', rest)
  | 'a' :: 'p' :: 'o' :: 's' :: ';' :: rest => some ('\'', rest)
  | _ => none

/-- One character of a value. -/
def readChar? : Text → Option (Char × Text)
  | [] => none
  | '&' :: rest => readEntity? rest
  | c :: rest => if c ∈ markup then none else some (c, rest)

theorem escapeChar_of_notMem {c : Char} (h : c ∉ markup) : escapeChar c = [c] := by
  unfold escapeChar
  split <;> first | exact absurd (by decide) h | rfl

theorem readChar?_of_notMem {c : Char} (h : c ∉ markup) (rest : Text) :
    readChar? (c :: rest) = some (c, rest) := by
  have hc : c ≠ '&' := fun he => h (he ▸ by decide)
  simp [readChar?, h]

theorem eq_of_readEntity? {t : Text} {c : Char} {rest : Text} (h : readEntity? t = some (c, rest)) :
    '&' :: t = escapeChar c ++ rest := by
  unfold readEntity? at h
  split at h <;> simp only [Option.some.injEq, Prod.mk.injEq, reduceCtorEq] at h
  all_goals
    obtain ⟨rfl, rfl⟩ := h
    rfl

/-- A character is read where it was written. -/
theorem reads_char : Reads readChar? escapeChar := by
  intro t c rest
  constructor
  · intro h
    unfold readChar? at h
    split at h
    next => simp at h
    next rest' => exact eq_of_readEntity? h
    next d rest' _ =>
      by_cases hd : d ∈ markup
      · simp [hd] at h
      · simp only [if_neg hd, Option.some.injEq, Prod.mk.injEq] at h
        obtain ⟨rfl, rfl⟩ := h
        rw [escapeChar_of_notMem hd]
        rfl
  · rintro rfl
    by_cases hc : c ∈ markup
    · simp only [markup, List.mem_cons, List.not_mem_nil, or_false] at hc
      rcases hc with rfl | rfl | rfl | rfl | rfl <;> rfl
    · rw [escapeChar_of_notMem hc]
      exact readChar?_of_notMem hc rest

/-- What is written for a character begins with an ampersand or with no markup. -/
theorem escapeChar_eq_cons (c : Char) :
    ∃ first later, escapeChar c = first :: later ∧ (first = '&' ∨ first ∉ markup) := by
  by_cases hc : c ∈ markup
  · simp only [markup, List.mem_cons, List.not_mem_nil, or_false] at hc
    rcases hc with rfl | rfl | rfl | rfl | rfl <;> exact ⟨'&', _, rfl, Or.inl rfl⟩
  · exact ⟨c, [], escapeChar_of_notMem hc, Or.inr hc⟩

/-- A value up to the text that ends it. -/
def readValue? (stop : Text) : Text → Option (Text × Text) := readUntil? readChar? stop

/-- **Values are read back** up to a text that begins with markup other than an ampersand, whatever
the value is. -/
theorem reads_value (stop : Text) (c : Char) (hc : stop.head? = some c) (hmarkup : c ∈ markup)
    (hne : c ≠ '&') : Reads (readValue? stop) fun value => escape value ++ stop := by
  obtain ⟨more, rfl⟩ := List.head?_eq_some_iff.1 hc
  refine reads_char.readUntil _ fun d rest hp => ?_
  obtain ⟨first, later, he, hfirst⟩ := escapeChar_eq_cons d
  rw [he, List.cons_append, List.cons_prefix_cons] at hp
  rcases hfirst with hf | hf
  · exact hne (hp.1.trans hf)
  · exact hf (hp.1 ▸ hmarkup)

end Xml

namespace Package

/-! ### Lines -/

/-- The value of an element. -/
def readElement? (tag : Text) : Text → Option (Text × Text) :=
  readAfter? ("    <" ++ tag ++ ">") (Xml.readValue? ("</" ++ tag ++ ">\n"))

/-- The values of an element's two attributes. -/
def readAttributes? (indent tag first second : Text) : Text → Option ((Text × Text) × Text) :=
  readAfter? (indent ++ "<" ++ tag ++ " " ++ first ++ "=\"")
    (readPair? (Xml.readValue? ("\" " ++ second ++ "=\"")) (Xml.readValue? "\" />\n"))

theorem reads_element (tag : Text) : Reads (readElement? tag) (elementLine tag) := by
  have hvalue := Xml.reads_value ("</" ++ tag ++ ">\n") '<' rfl (by decide) (by decide)
  refine (hvalue.readAfter _).congr fun value => ?_
  unfold elementLine
  simp only [List.append_assoc]

theorem reads_attributes (indent tag first second : Text) :
    Reads (readAttributes? indent tag first second) fun v =>
      attributeLine indent tag first v.1 second v.2 := by
  have hfirst := Xml.reads_value ("\" " ++ second ++ "=\"") '"' rfl (by decide) (by decide)
  have hsecond := Xml.reads_value "\" />\n" '"' rfl (by decide) (by decide)
  refine ((hfirst.readPair hsecond).readAfter _).congr fun v => ?_
  unfold attributeLine
  simp only [List.append_assoc]

/-! ### Sections -/

/-- A dependency and its two values. -/
def dependencyEquiv : Text × Text ≃ Dependency :=
  ⟨fun v => ⟨v.1, v.2⟩, fun d => (d.id, d.version), fun _ => rfl, fun _ => rfl⟩

/-- A packed file and its two values. -/
def packedFileEquiv : Text × Text ≃ PackedFile :=
  ⟨fun v => ⟨v.1, v.2⟩, fun f => (f.src, f.target), fun _ => rfl, fun _ => rfl⟩

/-- The dependencies, and the end of the metadata behind them. -/
def readDependencies? : Text → Option (List Dependency × Text) :=
  readSection? "  </metadata>\n" "    <dependencies>\n"
    (readUntil? (readAs? dependencyEquiv (readAttributes? "      " "dependency" "id" "version"))
      ("    </dependencies>\n" ++ "  </metadata>\n"))

/-- The files. -/
def readFiles? : Text → Option (List PackedFile × Text) :=
  readSection? "  <files />\n" "  <files>\n"
    (readUntil? (readAs? packedFileEquiv (readAttributes? "    " "file" "src" "target"))
      "  </files>\n")

theorem reads_dependencies :
    Reads readDependencies? fun ds => dependencySection ds ++ "  </metadata>\n" := by
  have hline := (reads_attributes "      " "dependency" "id" "version").readAs dependencyEquiv
  -- the lines are told apart by their indentation
  have hlist := hline.readUntil ("    </dependencies>\n" ++ "  </metadata>\n")
    fun _ _ => not_prefix_of_isPrefixOf rfl
  refine (hlist.readSection "  </metadata>\n" "    <dependencies>\n"
    fun _ => not_prefix_of_isPrefixOf rfl).congr fun ds => ?_
  unfold dependencySection
  split
  · rfl
  · simp only [List.append_assoc]
    rfl

theorem reads_files : Reads readFiles? fileSection := by
  have hline := (reads_attributes "    " "file" "src" "target").readAs packedFileEquiv
  have hlist := hline.readUntil "  </files>\n"
    fun _ _ => not_prefix_of_isPrefixOf rfl
  refine (hlist.readSection "  <files />\n" "  <files>\n"
    fun _ => not_prefix_of_isPrefixOf rfl).congr fun fs => ?_
  unfold fileSection
  split
  · rfl
  · simp only [List.append_assoc]
    rfl

/-! ### The document -/

/-- A package and what its document lists in turn. -/
def partsEquiv :
    Text × Text × Text × Text × List Dependency × List PackedFile ≃ Package where
  toFun := fun (id, description, authors, version, dependencies, files) =>
    ⟨id, description, authors, version, dependencies, files⟩
  invFun p := (p.id, p.description, p.authors, p.version, p.dependencies, p.files)

/-- What a document opens with. -/
def opening : Text :=
  "<?xml version=\"1.0\" encoding=\"utf-8\"?>\n" ++ "<package>\n" ++ "  <metadata>\n"

/-- A package, up to the last line of its document. -/
def readParts? : Text → Option (Package × Text) :=
  readAs? partsEquiv <| readAfter? opening <|
    readPair? (readElement? "id") <| readPair? (readElement? "description") <|
      readPair? (readElement? "authors") <| readPair? (readElement? "version") <|
        readPair? readDependencies? readFiles?

/-- The package a document describes; `none` when the text is no package document. -/
def read? : Text → Option Package := readWhole? readParts? "</package>"

/-- A document without its last line. -/
def openDocument (p : Package) : Text :=
  opening ++ (elementLine "id" p.id ++ (elementLine "description" p.description ++
    (elementLine "authors" p.authors ++ (elementLine "version" p.version ++
      (dependencySection p.dependencies ++ "  </metadata>\n" ++ fileSection p.files)))))

theorem document_eq (p : Package) : p.document = p.openDocument ++ "</package>" := by
  unfold document openDocument opening
  simp only [List.append_assoc]

theorem reads_parts : Reads readParts? openDocument :=
  ((reads_element "id").readPair <| (reads_element "description").readPair <|
    (reads_element "authors").readPair <| (reads_element "version").readPair <|
      reads_dependencies.readPair reads_files).readAfter opening |>.readAs partsEquiv

theorem read?_eq_some_iff (t : Text) (p : Package) : read? t = some p ↔ t = p.document := by
  rw [document_eq]
  exact reads_parts.readWhole?_eq_some_iff "</package>" t p

/-- **A document determines its package.** The decoder reads of every document the package it was
made from, and accepts no other text; so no two packages have the same document. -/
theorem read?_document :
    (∀ t p, read? t = some p ↔ t = document p) ∧ Function.Injective document := by
  refine ⟨read?_eq_some_iff, fun p q h => ?_⟩
  have hp := (read?_eq_some_iff p.document p).2 rfl
  rw [h, (read?_eq_some_iff q.document q).2 rfl] at hp
  exact (Option.some.inj hp).symm

end Package
end Nameplate
