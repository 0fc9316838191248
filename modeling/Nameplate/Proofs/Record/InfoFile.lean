/-
# Writing an info file and reading it

A record can be written as an info file, one declaration for each field in
turn, and what stands between the quotes is read back exactly, quotes in it
included. Whether it is read at all, and as what, is decided by looking at the
line as a whole, its value included: a comment marker anywhere hides the
declaration, and the first attribute whose marker is found anywhere gets the
value.

So reading undoes writing for just those records whose values hold no such
marker (`Record.IsLegible`, `Record.scan_written`); a link in a description is
enough for it not to (`Record.scan_written_hidden`). Markers of attributes
that are looked for later do no harm, and neither do comment markers where
they count at the beginning of a line only.

Key definitions: `Profile.written`, `Profile.writtenLines`, `Record.IsLegible`.
Key theorems: `Declaration.record_filterMap_iff`, `Record.scan_written`.
-/
import Mathlib.Data.List.Induction
import Nameplate.Proofs.Line.Returns
import Nameplate.Proofs.Record.Declared
import Nameplate.Proofs.Text.Contains

namespace Nameplate

/-! ### The first attribute on a line -/

/-- The place of an attribute in the order in which a line is searched. -/
def Attribute.rank (a : Attribute) : Nat := Attribute.all.idxOf a

theorem Attribute.getElem?_rank (a : Attribute) : all[a.rank]? = some a := by
  cases a <;> rfl

/-- The attribute of a line: its marker is there, and that of none before it. -/
theorem Markers.attributeIn?_eq_some_iff {m : Markers} {line : Text} {a : Attribute} :
    m.attributeIn? line = some a ↔ Text.contains (m.of a) line = true ∧
      ∀ b : Attribute, b.rank < a.rank → Text.contains (m.of b) line = false := by
  rw [attributeIn?, List.find?_eq_some_iff_getElem]
  refine and_congr_right fun _ => ⟨?_, fun h => ?_⟩
  · rintro ⟨i, hi, hget, hbefore⟩ b hb
    have hrank : a.rank = i := by
      rw [← hget, Attribute.rank]
      exact List.Nodup.idxOf_getElem (by decide) i hi
    have hget' : Attribute.all[b.rank] = b := (List.getElem_eq_iff _).2 b.getElem?_rank
    have hnot := hbefore b.rank (hrank ▸ hb)
    rwa [hget', Bool.not_eq_true'] at hnot
  · have hlt : a.rank < Attribute.all.length := List.idxOf_lt_length_of_mem (by cases a <;> decide)
    refine ⟨a.rank, hlt, (List.getElem_eq_iff _).2 a.getElem?_rank, fun j hj => ?_⟩
    have hrank : (Attribute.all[j]).rank = j := List.Nodup.idxOf_getElem (by decide) j (by omega)
    rw [h _ (by rw [hrank]; exact hj)]
    rfl

/-! ### Declarations that are misread -/

namespace Declaration

/-- Without semantic versions the last version is the one that counts. -/
theorem version_eq_last {ds : List Declaration} (h : ∀ d ∈ ds, d.kind ≠ .semanticVersion) :
    version ds = last .version ds := by
  have hversions : versions ds = ds.filter fun d => d.kind = .version := by
    refine List.filter_congr fun d hd => ?_
    have hne := h d hd
    revert hne
    cases d.kind <;> decide
  have hfirst : firstKind ds ≠ some .semanticVersion := by
    rw [firstKind, hversions]
    intro hs
    obtain ⟨d, hd, hk⟩ := Option.map_eq_some_iff.1 hs
    exact h d (List.mem_filter.1 (List.mem_of_head? hd)).1 hk
  rw [version_of_plain hfirst, hversions, last]

/-- An attribute that is not declared has no value. -/
theorem last_eq_nil {a : Attribute} {ds : List Declaration} (h : ∀ d ∈ ds, d.kind ≠ a) :
    last a ds = [] := by
  have hnone : (ds.filter fun d => d.kind = a) = [] :=
    List.filter_eq_nil_iff.2 fun d hd => by simpa using h d hd
  rw [last, hnone]
  rfl

variable {f : Declaration → Option Declaration}

/-- Declarations of different attributes in their order, of which `f` loses some and takes others
for declarations of earlier attributes: all values are found in place only when all declarations are
kept. For the last declaration could be replaced by none, the one before it then only by the last,
and so on. -/
theorem last_filterMap_iff
    (hf : ∀ d e, f d = some e → e.value = d.value ∧ e.kind.rank ≤ d.kind.rank)
    (ds : List Declaration) (hsorted : ds.Pairwise fun d e => d.kind.rank < e.kind.rank)
    (hvalue : ∀ d ∈ ds, d.value ≠ []) :
    (∀ d ∈ ds, last d.kind (ds.filterMap f) = d.value) ↔ ∀ d ∈ ds, f d = some d := by
  induction ds using List.reverseRecOn with
  | nil => simp
  | append_singleton ds d ih =>
    obtain ⟨hds, -, hbefore⟩ := List.pairwise_append.1 hsorted
    simp only [List.forall_mem_append, List.forall_mem_singleton] at hvalue ⊢
    have hless : ∀ e ∈ ds.filterMap f, e.kind ≠ d.kind := by
      intro e he hk
      obtain ⟨c, hc, hfc⟩ := List.mem_filterMap.1 he
      have hle := (hf c e hfc).2
      have hlt := hbefore c hc d List.mem_cons_self
      rw [hk] at hle
      omega
    have hnil : last d.kind (ds.filterMap f) = [] := last_eq_nil hless
    rw [List.filterMap_append]
    cases hfd : f d with
    | none =>
      have hgone : [d].filterMap f = [] := by simp [hfd]
      rw [hgone, List.append_nil, hnil]
      exact iff_of_false (fun h => hvalue.2 h.2.symm) (fun h => by simp at h)
    | some e =>
      have hone : [d].filterMap f = [e] := by simp [hfd]
      rw [hone]
      simp only [last_append, hnil]
      by_cases hk : e.kind = d.kind
      · have hed : e = d := by
          have hv := (hf d e hfd).1
          cases e
          cases d
          simp_all
        subst hed
        have hother (c : Declaration) (hc : c ∈ ds) : ¬e.kind = c.kind := by
          intro he
          have hlt := hbefore c hc e List.mem_cons_self
          rw [he] at hlt
          omega
        rw [if_pos rfl, and_iff_left rfl, and_iff_left rfl, ← ih hds hvalue.1]
        exact forall₂_congr fun c hc => by rw [if_neg (hother c hc)]
      · rw [if_neg hk]
        refine iff_of_false (fun h => hvalue.2 h.2.symm) (fun h => hk ?_)
        rw [Option.some.inj h.2]

end Declaration

/-- The declarations of a record, in the order in which they are written. -/
def Record.declared (r : Record) : List Declaration :=
  [⟨.title, r.title⟩, ⟨.description, r.description⟩, ⟨.company, r.company⟩, ⟨.version, r.version⟩]

/-- **A record is read back only if each of its declarations is.** -/
theorem Declaration.record_filterMap_iff {f : Declaration → Option Declaration}
    (hf : ∀ d e, f d = some e → e.value = d.value ∧ e.kind.rank ≤ d.kind.rank) {r : Record}
    (hr : r.isComplete = true) :
    record (r.declared.filterMap f) = r ↔ ∀ d ∈ r.declared, f d = some d := by
  have hvalue : ∀ d ∈ r.declared, d.value ≠ [] := by
    have hfields := r.isComplete_iff.1 hr
    have hne (field : Text × Text) (h : field ∈ r.fields) : field.2 ≠ [] := fun hnil => by
      have hblank := hfields field h
      rw [hnil] at hblank
      exact absurd hblank (by decide)
    simp only [Record.fields, List.forall_mem_cons] at hne
    simp only [Record.declared, List.forall_mem_cons]
    exact ⟨hne.1, hne.2.1, hne.2.2.1, hne.2.2.2.1, fun _ h => absurd h List.not_mem_nil⟩
  have hsorted : r.declared.Pairwise fun d e => d.kind.rank < e.kind.rank := by
    have hranks : (r.declared.map fun d => d.kind.rank).Pairwise (· < ·) := by
      show [0, 1, 2, 3].Pairwise (· < ·)
      decide
    exact List.pairwise_map.1 hranks
  have hkinds : ∀ d ∈ r.declared.filterMap f, d.kind ≠ .semanticVersion := by
    intro e he hs
    obtain ⟨d, hd, hfd⟩ := List.mem_filterMap.1 he
    have hle := (hf d e hfd).2
    have hlast : ∀ d ∈ r.declared, d.kind.rank < Attribute.rank .semanticVersion := by
      simp only [Record.declared, List.forall_mem_cons]
      decide
    have hlt := hlast d hd
    rw [hs] at hle
    omega
  rw [← last_filterMap_iff hf r.declared hsorted hvalue, record, version_eq_last hkinds]
  generalize r.declared.filterMap f = ds
  cases r
  simp only [Record.declared, List.forall_mem_cons, Record.mk.injEq]
  simp

/-! ### Declarations as they are written -/

/-- What is written before the value of an attribute and its quote. -/
def Profile.opening (p : Profile) (a : Attribute) : Text :=
  if p.joinsNextLine then "CUSTOM-ATTRIBUTE ".toList ++ p.markers.of a ++ "USING "
  else p.markers.of a ++ " = "

/-- What is written behind a value and its quote. -/
def Profile.closing (p : Profile) : Text := if p.joinsNextLine then "." else []

/-- A declaration as it is written, on one logical line. -/
def Profile.written (p : Profile) (d : Declaration) : Quoted := ⟨p.opening d.kind, d.value, p.closing⟩

/-- The texts of the physical lines on which a declaration is written. -/
def Profile.writtenLines (p : Profile) (d : Declaration) : List Text :=
  if p.joinsNextLine then
    ["CUSTOM-ATTRIBUTE ".toList ++ p.markers.of d.kind, Quoted.line ⟨"USING ", d.value, "."⟩]
  else [(p.written d).line]

/-- A record whose values hold no marker that is seen before their own: none of an attribute that
is looked for earlier, and none of a comment where one counts anywhere. -/
structure Record.IsLegible (p : Profile) (r : Record) : Prop where
  marker : ∀ d ∈ r.declared, ∀ a : Attribute, a.rank < d.kind.rank →
    Text.contains (p.markers.of a) d.value = false
  comment : p.commentsLead = false → ∀ d ∈ r.declared, Text.containsAny p.comments d.value = false

theorem Attribute.mem_all (a : Attribute) : a ∈ all := List.mem_of_getElem? a.getElem?_rank

namespace Language

/-- Of the markers of the attributes, an opening has its own only. -/
theorem contains_opening (l : Language) (a b : Attribute) :
    Text.contains (l.profile.markers.of a) (l.profile.opening b) = decide (a = b) := by
  have hall : (Attribute.all.all fun a => Attribute.all.all fun b =>
      Text.contains (l.profile.markers.of a) (l.profile.opening b) == decide (a = b)) = true := by
    cases l <;> decide +kernel
  have hab := List.all_eq_true.1 (List.all_eq_true.1 hall a a.mem_all) b b.mem_all
  exact beq_iff_eq.1 hab

/-- The markers on a written declaration are its own and those in its value. -/
theorem contains_written (l : Language) (d : Declaration) (a : Attribute) :
    Text.contains (l.profile.markers.of a) (l.profile.written d).line =
      (decide (a = d.kind) || Text.contains (l.profile.markers.of a) d.value) := by
  have hmarker : l.profile.markers.of a ≠ [] ∧ '"' ∉ l.profile.markers.of a := by
    cases l <;> cases a <;> decide
  have hafter : Text.contains (l.profile.markers.of a) l.profile.closing = false := by
    cases l <;> cases a <;> rfl
  rw [Quoted.contains_line hmarker.1 hmarker.2, Profile.written, contains_opening, hafter,
    Bool.or_false]

/-- The value of a written declaration is read back whatever it is. -/
theorem quoted_written (l : Language) (d : Declaration) :
    Text.quoted (l.profile.written d).line = d.value := by
  have hbefore : '"' ∉ l.profile.opening d.kind := by
    cases l <;> cases d.kind <;> decide
  have hafter : '"' ∉ l.profile.closing := by cases l <;> decide
  rw [Text.quoted, Quoted.split?_line (q := l.profile.written d) hbefore hafter]
  rfl

/-- Where a comment marker counts anywhere, one in the value makes a comment of a declaration. -/
theorem isUncommented_written (l : Language) (hl : l.profile.commentsLead = false)
    (d : Declaration) :
    l.profile.isUncommented (l.profile.written d).line =
      !Text.containsAny l.profile.comments d.value := by
  have hcomment : ∀ m ∈ l.profile.comments, (m ≠ [] ∧ '"' ∉ m) ∧
      (∀ a ∈ Attribute.all, Text.contains m (l.profile.opening a) = false) ∧
      Text.contains m l.profile.closing = false := by
    revert hl
    cases l <;> decide +kernel
  rw [Profile.isUncommented, hl, if_neg Bool.false_ne_true, Text.containsAny, Text.containsAny]
  congr 1
  rw [Bool.eq_iff_iff, List.any_eq_true, List.any_eq_true]
  refine exists_congr fun m => and_congr_right fun hm => ?_
  obtain ⟨hmarker, hopening, hclosing⟩ := hcomment m hm
  rw [Quoted.contains_line hmarker.1 hmarker.2, Profile.written,
    hopening d.kind d.kind.mem_all, hclosing, Bool.false_or, Bool.or_false]

end Language

/-! ### What is read of them -/

/-- What a written declaration is read as. -/
def Profile.readAs (p : Profile) (d : Declaration) : Option Declaration :=
  if p.commentsLead || !Text.containsAny p.comments d.value then
    p.markers.declaration? (p.written d).line
  else none

theorem Markers.declaration?_eq_some_iff {m : Markers} {line : Text} {d : Declaration} :
    m.declaration? line = some d ↔ m.attributeIn? line = some d.kind ∧ Text.quoted line = d.value := by
  obtain ⟨kind, value⟩ := d
  rw [declaration?, Option.map_eq_some_iff]
  constructor
  · rintro ⟨a, ha, he⟩
    obtain ⟨rfl, rfl⟩ := Declaration.mk.inj he
    exact ⟨ha, rfl⟩
  · rintro ⟨ha, hv⟩
    exact ⟨kind, ha, by rw [hv]⟩

namespace Language

/-- A declaration is read with its value, at most as one of an earlier attribute. -/
theorem readAs_le (l : Language) {d e : Declaration} (h : l.profile.readAs d = some e) :
    e.value = d.value ∧ e.kind.rank ≤ d.kind.rank := by
  unfold Profile.readAs at h
  split at h
  next =>
    obtain ⟨hkind, hvalue⟩ := Markers.declaration?_eq_some_iff.1 h
    rw [quoted_written] at hvalue
    refine ⟨hvalue.symm, Nat.le_of_not_lt fun hlt => ?_⟩
    have hnone := (Markers.attributeIn?_eq_some_iff.1 hkind).2 d.kind hlt
    rw [contains_written, decide_eq_true rfl, Bool.true_or] at hnone
    exact Bool.noConfusion hnone
  next => exact absurd h (Option.some_ne_none e).symm

/-- **When a declaration is read as what it is.** -/
theorem readAs_eq_some_iff (l : Language) (d : Declaration) :
    l.profile.readAs d = some d ↔
      (l.profile.commentsLead = false → Text.containsAny l.profile.comments d.value = false) ∧
      ∀ a : Attribute, a.rank < d.kind.rank →
        Text.contains (l.profile.markers.of a) d.value = false := by
  have hread : l.profile.markers.declaration? (l.profile.written d).line = some d ↔
      ∀ a : Attribute, a.rank < d.kind.rank →
        Text.contains (l.profile.markers.of a) d.value = false := by
    rw [Markers.declaration?_eq_some_iff, Markers.attributeIn?_eq_some_iff, quoted_written,
      and_iff_left rfl, contains_written, decide_eq_true rfl, Bool.true_or, and_iff_right rfl]
    refine forall₂_congr fun a ha => ?_
    have hne : a ≠ d.kind := fun he => by rw [he] at ha; omega
    rw [contains_written, decide_eq_false hne, Bool.false_or]
  unfold Profile.readAs
  split
  next hseen =>
    rw [hread, and_iff_right]
    intro hlead
    simpa [hlead] using hseen
  next hhidden =>
    refine iff_of_false (Option.some_ne_none d).symm fun h => hhidden ?_
    cases hlead : l.profile.commentsLead with
    | true => rfl
    | false => simp [h.1 hlead]

theorem isLegible_iff (l : Language) (r : Record) :
    r.IsLegible l.profile ↔ ∀ d ∈ r.declared, l.profile.readAs d = some d := by
  simp only [readAs_eq_some_iff]
  exact ⟨fun h d hd => ⟨fun hlead => h.comment hlead d hd, h.marker d hd⟩,
    fun h => ⟨fun d hd => (h d hd).2, fun hlead d hd => (h d hd).1 hlead⟩⟩

end Language

namespace Language

/-- Where a declaration goes on to the next line, its first line opens it whatever the value is. -/
theorem declaresAttribute_first (l : Language) (hj : l.profile.joinsNextLine = true)
    (a : Attribute) :
    l.profile.declaresAttribute ("CUSTOM-ATTRIBUTE ".toList ++ l.profile.markers.of a) = true := by
  revert hj
  cases l <;> cases a <;> decide +kernel

/-- Where it does not, it declares something unless it is a comment. -/
theorem declaresAttribute_written (l : Language) (hj : l.profile.joinsNextLine = false)
    (d : Declaration) :
    l.profile.declaresAttribute (l.profile.written d).line =
      !Text.containsAny l.profile.comments d.value := by
  have hplain : l.profile.commentsLead = false ∧ l.profile.required.isEmpty = true := by
    revert hj
    cases l <;> decide
  rw [Profile.declaresAttribute, Profile.mayDeclare, isUncommented_written l hplain.1, hplain.2,
    Bool.true_or, Bool.and_true, Bool.true_or, Bool.and_true]

/-- **The lines of written declarations are read one declaration after the other**, whatever way the
lines end. -/
theorem declarations_written (l : Language) : ∀ (ds : List Declaration) (ls : List Line),
    ls.map Line.text = ds.flatMap l.profile.writtenLines →
      l.profile.markers.declarations
        (Group.sort l.profile.declaresAttribute l.profile.joinsNextLine false ls) =
        ds.filterMap l.profile.readAs
  | [], ls, h => by
    obtain rfl : ls = [] := by simpa using h
    rfl
  | d :: ds, ls, h => by
    have hcons : (d :: ds).filterMap l.profile.readAs =
        (l.profile.readAs d).toList ++ ds.filterMap l.profile.readAs := by
      rw [List.filterMap_cons]
      cases l.profile.readAs d <;> rfl
    have hlead : l.profile.commentsLead = l.profile.joinsNextLine := by cases l <;> rfl
    rw [List.flatMap_cons, Profile.writtenLines] at h
    rw [hcons, Profile.readAs, hlead]
    cases hj : l.profile.joinsNextLine with
    | false =>
      rw [hj, if_neg Bool.false_ne_true, List.singleton_append] at h
      obtain ⟨x, ls, rfl, hx, hls⟩ := List.map_eq_cons_iff.1 h
      have ih := declarations_written l ds ls hls
      rw [hj, Group.sort_eq_map] at ih
      rw [Group.sort_eq_map, List.map_cons, Markers.declarations_cons, ih, Group.ofLine, hx,
        declaresAttribute_written l hj, Bool.false_or]
      split <;> simp [Group.declares, Group.text, hx]
    | true =>
      rw [hj, if_pos rfl] at h
      obtain ⟨x, ls, rfl, hx, hls⟩ := List.map_eq_cons_iff.1 h
      obtain ⟨y, ls, rfl, hy, hls⟩ := List.map_eq_cons_iff.1 hls
      have ih := declarations_written l ds ls hls
      have htext : Group.text (.pair x y) = (l.profile.written d).line := by
        rw [Group.text, hx, hy, Profile.written, Profile.opening, Profile.closing, hj]
        simp [Quoted.line]
      rw [hj] at ih
      rw [Group.sort, if_pos (hx ▸ declaresAttribute_first l hj d.kind), if_pos rfl,
        Markers.declarations_cons, ih, htext]
      rfl

end Language

/-- The lines on which a value of one line is written are lines of a file. -/
theorem Language.writtenLines_oneLine (l : Language) {d : Declaration}
    (hd : '\n' ∉ d.value ∧ '\r' ∉ d.value) :
    ∀ t ∈ l.profile.writtenLines d, t ≠ [] ∧ '\n' ∉ t ∧ '\r' ∉ t := by
  have hparts : ∀ t ∈ [l.profile.opening d.kind, l.profile.closing,
      "CUSTOM-ATTRIBUTE ".toList ++ l.profile.markers.of d.kind, "USING ".toList],
      '\n' ∉ t ∧ '\r' ∉ t := by
    cases l <;> cases d.kind <;> decide
  simp only [List.forall_mem_cons] at hparts
  obtain ⟨hopening, hclosing, hfirst, husing, -⟩ := hparts
  have hquoted (q : Quoted) (hv : q.value = d.value) (hb : '\n' ∉ q.before ∧ '\r' ∉ q.before)
      (ha : '\n' ∉ q.after ∧ '\r' ∉ q.after) :
      q.line ≠ [] ∧ '\n' ∉ q.line ∧ '\r' ∉ q.line := by
    rw [Quoted.line, hv]
    simp [hb, ha, hd]
  unfold Profile.writtenLines
  cases hj : l.profile.joinsNextLine with
  | false =>
    rw [if_neg Bool.false_ne_true, List.forall_mem_singleton]
    exact hquoted (l.profile.written d) rfl hopening hclosing
  | true =>
    rw [if_pos rfl, List.forall_mem_cons, List.forall_mem_singleton]
    have hend : '\n' ∉ ['.'] ∧ '\r' ∉ ['.'] := by decide
    exact ⟨⟨by simp, hfirst⟩, hquoted ⟨"USING ", d.value, ['.']⟩ rfl husing hend⟩

/-- Lines with some text and no control character in it are the lines of a file, if each but the
last one ends. -/
theorem Line.tidy_of_forall : ∀ {ls : List Line},
    (∀ x ∈ ls, x.text ≠ [] ∧ '\n' ∉ x.text ∧ '\r' ∉ x.text) →
      (∀ x ∈ ls.dropLast, x.ending ≠ .none) → Tidy ls
  | [], _, _ => ⟨trivial, by simp⟩
  | x :: ls, h, hend => by
    rw [List.forall_mem_cons] at h
    have hlast : x.ending = .none → ls = [] := by
      intro he
      cases ls with
      | nil => rfl
      | cons y ls => exact absurd he (hend x List.mem_cons_self)
    refine tidy_cons.2 ⟨h.1.2, fun he => ⟨h.1.1, hlast he⟩, tidy_of_forall h.2 fun y hy => ?_⟩
    cases ls with
    | nil => exact absurd hy List.not_mem_nil
    | cons z ls => exact hend y (List.mem_cons_of_mem x hy)

/-- **Reading undoes writing for the legible records**, and for no others: when each field of a
record is written in turn, the file is read as that record exactly if no value holds a marker that is
seen before its own. -/
theorem Record.scan_written (l : Language) (r : Record) (hr : r.isComplete = true)
    (hline : ∀ d ∈ r.declared, '\n' ∉ d.value ∧ '\r' ∉ d.value) (ls : List Line)
    (hls : ls.map Line.text = r.declared.flatMap l.profile.writtenLines)
    (hend : ∀ x ∈ ls.dropLast, x.ending ≠ .none) :
    Record.scan l.profile (Source.ofText (Line.join ls)) = .ok r ↔ r.IsLegible l.profile := by
  have htexts : ∀ x ∈ ls, x.text ≠ [] ∧ '\n' ∉ x.text ∧ '\r' ∉ x.text := by
    intro x hx
    have htext : x.text ∈ r.declared.flatMap l.profile.writtenLines :=
      hls ▸ List.mem_map_of_mem hx
    obtain ⟨d, hd, hmem⟩ := List.mem_flatMap.1 htext
    exact l.writtenLines_oneLine (hline d hd) x.text hmem
  have hproper : Line.Proper ls := (Line.tidy_of_forall htexts hend).1
  have hdeclarations : l.profile.declarations (Line.join ls) =
      r.declared.filterMap l.profile.readAs := by
    rw [Profile.declarations, Profile.attributeGroups, Line.split_join hproper,
      l.declarations_written r.declared ls hls]
  rw [scan_ofText, hdeclarations, Except.ok.injEq,
    Declaration.record_filterMap_iff (fun _ _ => l.readAs_le) hr, l.isLegible_iff]

/-- The info file of a record, with a line feed after each line. -/
def Record.write (p : Profile) (r : Record) : Text :=
  Line.join ((r.declared.flatMap p.writtenLines).map fun t => ⟨t, .lineFeed⟩)

/-- Values with quotes, with the marker of an attribute that is looked for later, and with a comment
marker where none counts. -/
theorem Record.scan_written_cobol :
    Record.scan Language.cobol.profile (Source.ofText <|
      Record.write Language.cobol.profile ⟨"the CA-ASSEMBLYVERSION", "*> \"a\"", "c", "1.0"⟩) =
    .ok ⟨"the CA-ASSEMBLYVERSION", "*> \"a\"", "c", "1.0"⟩ := by
  have hread : ∀ d ∈ Record.declared ⟨"the CA-ASSEMBLYVERSION", "*> \"a\"", "c", "1.0"⟩,
      Language.cobol.profile.readAs d = some d := by
    decide +kernel
  refine (Record.scan_written .cobol _ (by decide) (by decide) _ ?_ (by decide +kernel)).2
    ((Language.isLegible_iff _ _).2 hread)
  rw [List.map_map]
  exact List.map_id' _

/-- **Not every record can be read back.** A link in a description makes a comment of its
declaration, and the marker of an attribute that is looked for earlier gives the value to that. -/
theorem Record.scan_written_hidden :
    (Record.isComplete ⟨"Orders", "see http://x", "c", "1.0"⟩ = true ∧
      (∀ d ∈ Record.declared ⟨"Orders", "see http://x", "c", "1.0"⟩,
        '\n' ∉ d.value ∧ '\r' ∉ d.value) ∧
      Record.scan Language.tsql.profile (Source.ofText <|
        Record.write Language.tsql.profile ⟨"Orders", "see http://x", "c", "1.0"⟩) =
      .ok ⟨"Orders", [], "c", "1.0"⟩) ∧
    Record.isComplete ⟨"Orders", "the CA-ASSEMBLYTITLE", "c", "1.0"⟩ = true ∧
      (∀ d ∈ Record.declared ⟨"Orders", "the CA-ASSEMBLYTITLE", "c", "1.0"⟩,
        '\n' ∉ d.value ∧ '\r' ∉ d.value) ∧
      Record.scan Language.cobol.profile (Source.ofText <|
        Record.write Language.cobol.profile ⟨"Orders", "the CA-ASSEMBLYTITLE", "c", "1.0"⟩) =
      .ok ⟨"the CA-ASSEMBLYTITLE", [], "c", "1.0"⟩ := by
  rw [scan_ofText, scan_ofText]
  -- literals are taken apart first, since evaluating them is what would take long
  unfold Language.profile Markers.database Markers.cobol
  repeat rw [String.toList_ofList]
  decide +kernel

end Nameplate
