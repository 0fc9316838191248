/-
# What an info file declares

Reading an info file goes through its logical lines with a state. What comes of
it depends only on the declarations in their order, each an attribute and a
value: a title, a description or a company is the last one declared, and of the
versions the kind of the first one decides, which takes no state to say
(`Declaration.version`). So the record of a file is a function of the
declarations in it (`Scan.run_eq`, `Record.scan_ofText`).

Key definitions: `Declaration`, `Declaration.record`, `Profile.declarations`.
Key theorems: `Scan.run_eq`, `Record.scan_ofText`.
-/
import Nameplate.Record.Scan
import Nameplate.Proofs.Line.Grouping

namespace Nameplate

/-- Whether the attribute is a version, of whichever kind. -/
def Attribute.isVersion : Attribute → Bool
  | .version | .semanticVersion => true
  | .title | .description | .company => false

/-- An attribute, and the value that is declared for it. -/
structure Declaration where
  kind : Attribute
  value : Text
  deriving DecidableEq, Repr

namespace Declaration

/-- The value of the last declaration of an attribute; empty when there is none. -/
def last (a : Attribute) (ds : List Declaration) : Text :=
  ((ds.filter fun d => d.kind = a).getLast?.map value).getD []

/-- The declarations of versions. -/
def versions (ds : List Declaration) : List Declaration := ds.filter fun d => d.kind.isVersion

/-- The kind of the first version. -/
def firstKind (ds : List Declaration) : Option Attribute := (versions ds).head?.map kind

/-- The declaration whose version counts: where a semantic version comes first, the first one that
is not blank, and otherwise the last one. -/
def deciding (ds : List Declaration) : Option Declaration :=
  if firstKind ds = some .semanticVersion then
    ((versions ds).find? fun d => !Text.isBlank d.value).or (versions ds).getLast?
  else (versions ds).getLast?

/-- The version that is declared; empty when there is none. -/
def version (ds : List Declaration) : Text := ((deciding ds).map value).getD []

/-- The metadata that is declared. -/
def record (ds : List Declaration) : Record where
  title := last .title ds
  description := last .description ds
  company := last .company ds
  version := version ds

/-- After a plain version the last version is the one that counts. -/
theorem version_of_plain {ds : List Declaration} (h : firstKind ds ≠ some .semanticVersion) :
    version ds = ((versions ds).getLast?.map value).getD [] := by
  rw [version, deciding, if_neg h]

/-- After a semantic version it is that one, if it is not blank. -/
theorem version_of_semantic {ds : List Declaration} {d : Declaration}
    (h : (versions ds).head? = some d) (hk : d.kind = .semanticVersion)
    (hb : Text.isBlank d.value = false) : version ds = d.value := by
  have hfirst : firstKind ds = some .semanticVersion := by rw [firstKind, h, Option.map_some, hk]
  obtain ⟨ds', hds⟩ : ∃ ds', versions ds = d :: ds' := by
    cases hv : versions ds with
    | nil => simp [hv] at h
    | cons e ds' => exact ⟨ds', by rw [hv, List.head?_cons, Option.some.injEq] at h; rw [h]⟩
  rw [version, deciding, if_pos hfirst, hds, List.find?_cons_of_pos (by simp [hb])]
  rfl

/-! ### One more declaration -/

theorem last_append (a : Attribute) (ds : List Declaration) (d : Declaration) :
    last a (ds ++ [d]) = if d.kind = a then d.value else last a ds := by
  unfold last
  rw [List.filter_append, List.filter_cons, List.filter_nil]
  by_cases h : d.kind = a
  · rw [if_pos h, if_pos (by simpa using h), List.getLast?_concat]
    rfl
  · rw [if_neg h, if_neg (by simpa using h), List.append_nil]

theorem versions_append (ds : List Declaration) (d : Declaration) :
    versions (ds ++ [d]) = if d.kind.isVersion then versions ds ++ [d] else versions ds := by
  unfold versions
  rw [List.filter_append, List.filter_cons, List.filter_nil]
  by_cases h : d.kind.isVersion = true
  · rw [if_pos h, if_pos h]
  · rw [if_neg h, if_neg h, List.append_nil]

theorem firstKind_append (ds : List Declaration) {d : Declaration}
    (h : d.kind.isVersion = true) :
    firstKind (ds ++ [d]) = some ((firstKind ds).getD d.kind) := by
  unfold firstKind
  rw [versions_append, if_pos h]
  cases versions ds <;> rfl

/-- What is no version leaves the version as it is. -/
theorem version_append_of_not_isVersion (ds : List Declaration) {d : Declaration}
    (h : d.kind.isVersion = false) :
    version (ds ++ [d]) = version ds ∧ firstKind (ds ++ [d]) = firstKind ds := by
  have hv : versions (ds ++ [d]) = versions ds := by
    rw [versions_append, if_neg (by simp [h])]
  unfold version deciding firstKind
  rw [hv]
  exact ⟨rfl, rfl⟩

/-- A version that is not blank was declared as such. -/
theorem find?_nonBlank_eq_none {ds : List Declaration}
    (hs : firstKind ds = some .semanticVersion) (hb : Text.isBlank (version ds) = true) :
    ((versions ds).find? fun d => !Text.isBlank d.value) = none := by
  cases hf : (versions ds).find? fun d => !Text.isBlank d.value with
  | none => rfl
  | some d =>
    have hd := List.find?_some hf
    rw [version, deciding, if_pos hs, hf] at hb
    simp only [Option.some_or, Option.map_some, Option.getD_some] at hb
    simp [hb] at hd

/-- **A version is taken over unless a semantic version came first and has said something.** -/
theorem version_append {ds : List Declaration} {d : Declaration}
    (h : d.kind.isVersion = true) :
    version (ds ++ [d]) =
      if (firstKind ds).getD d.kind = .semanticVersion ∧ Text.isBlank (version ds) = false
      then version ds else d.value := by
  have hv : versions (ds ++ [d]) = versions ds ++ [d] := by rw [versions_append, if_pos h]
  have hk := firstKind_append ds h
  by_cases hs : (firstKind ds).getD d.kind = .semanticVersion
  · have hdeciding : deciding (ds ++ [d]) =
        ((versions ds ++ [d]).find? fun d => !Text.isBlank d.value).or (some d) := by
      rw [deciding, hk, hs, if_pos rfl, hv, List.getLast?_concat]
    by_cases hb : Text.isBlank (version ds) = true
    · rw [if_neg (by simp [hb]), version, hdeciding, List.find?_append]
      have hnone : ((versions ds).find? fun d => !Text.isBlank d.value) = none := by
        cases hf : firstKind ds with
        | none =>
          have hnil : versions ds = [] := by simpa [firstKind] using hf
          rw [hnil, List.find?_nil]
        | some k =>
          rw [hf, Option.getD_some] at hs
          exact find?_nonBlank_eq_none (hs ▸ hf) hb
      rw [hnone, Option.none_or, List.find?_cons, List.find?_nil]
      cases Text.isBlank d.value <;> rfl
    · rw [if_pos ⟨hs, by simpa using hb⟩]
      have hkind : firstKind ds = some .semanticVersion := by
        cases hf : firstKind ds with
        | none =>
          have hnil : versions ds = [] := by simpa [firstKind] using hf
          simp [version, deciding, hnil, Text.isBlank] at hb
        | some k => rw [← hs, hf, Option.getD_some]
      rw [version, hdeciding, List.find?_append]
      rw [version, deciding, if_pos hkind] at hb ⊢
      cases hf : (versions ds).find? fun d => !Text.isBlank d.value with
      | some e => simp only [Option.some_or]
      | none =>
        -- all values so far are blank, and so is the last of them
        rw [hf, Option.none_or] at hb
        cases hl : (versions ds).getLast? with
        | none => simp [hl, Text.isBlank] at hb
        | some e =>
          have he := List.find?_eq_none.1 hf e (List.mem_of_getLast? hl)
          simp [hl] at hb he
          simp [hb] at he
  · rw [if_neg fun hc => hs hc.1, version, deciding, hk,
      if_neg fun hc => hs (Option.some.inj hc), hv, List.getLast?_concat]
    rfl

end Declaration

/-! ### The pass over the declarations -/

namespace Scan

/-- The state after one declaration. -/
def declare (s : Scan) (d : Declaration) : Scan :=
  match d.kind with
  | .title => { s with record := { s.record with title := d.value } }
  | .description => { s with record := { s.record with description := d.value } }
  | .company => { s with record := { s.record with company := d.value } }
  | .version => acceptVersion .version d.value s
  | .semanticVersion => acceptVersion .semanticVersion d.value s

/-- The state in which given declarations leave the pass. -/
def after (ds : List Declaration) : Scan := ⟨Declaration.record ds, Declaration.firstKind ds⟩

open Declaration in
theorem acceptVersion_after {ds : List Declaration} {d : Declaration}
    (h : d.kind.isVersion = true) :
    acceptVersion d.kind d.value (after ds) = after (ds ++ [d]) := by
  have hlast (a : Attribute) (ha : a.isVersion = false) : last a (ds ++ [d]) = last a ds := by
    rw [last_append, if_neg]
    rintro rfl
    simp [h] at ha
  have hrecord : Declaration.record (ds ++ [d]) =
      { Declaration.record ds with version := version (ds ++ [d]) } := by
    simp only [Declaration.record, hlast .title rfl, hlast .description rfl, hlast .company rfl]
  rw [after, after, hrecord, firstKind_append ds h, version_append h, acceptVersion]
  by_cases hc : (firstKind ds).getD d.kind = .semanticVersion ∧
      Text.isBlank (version ds) = false
  · rw [if_pos hc]
    simp [Declaration.record, hc]
  · rw [if_neg hc]
    have hnot : ¬((firstKind ds).getD d.kind = .semanticVersion ∧
        (!Text.isBlank (version ds)) = true) := by simpa using hc
    simp only [Declaration.record, Bool.and_eq_true, decide_eq_true_eq, if_neg hnot]

/-- **One step of the pass.** -/
theorem declare_after (ds : List Declaration) (d : Declaration) :
    declare (after ds) d = after (ds ++ [d]) := by
  obtain ⟨a, value⟩ := d
  by_cases h : a.isVersion = true
  · rw [← acceptVersion_after (d := ⟨a, value⟩) h]
    cases a with
    | version | semanticVersion => rfl
    | title | description | company => exact absurd h Bool.false_ne_true
  · have hkept := Declaration.version_append_of_not_isVersion ds (d := ⟨a, value⟩)
      (by simpa using h)
    unfold after Declaration.record
    rw [hkept.1, hkept.2]
    simp only [Declaration.last_append]
    cases a with
    | version | semanticVersion => exact absurd rfl h
    | title | description | company => rfl

theorem foldl_declare : ∀ done ds : List Declaration,
    ds.foldl declare (after done) = after (done ++ ds)
  | done, [] => by rw [List.foldl_nil, List.append_nil]
  | done, d :: ds => by
    rw [List.foldl_cons, declare_after, foldl_declare (done ++ [d]) ds, List.append_assoc]
    rfl

end Scan

/-! ### The markers on a line -/

namespace Markers

/-- The markers of all attributes, that of the second version included. -/
def every (m : Markers) : List Text := m.all ++ m.fileVersion.toList

theorem any_fileVersion (m : Markers) (line : Text) :
    (m.fileVersion.toList.any fun marker => Text.contains marker line) = m.isFileVersion line := by
  unfold isFileVersion
  cases m.fileVersion <;> simp

/-- How many of the markers are on a line. -/
theorem countP_every (m : Markers) (line : Text) :
    m.every.countP (fun marker => Text.contains marker line) =
      (Text.contains m.title line).toNat + (Text.contains m.description line).toNat +
        (Text.contains m.company line).toNat + (Text.contains m.version line).toNat +
        (Text.contains m.semanticVersion line).toNat + (m.isFileVersion line).toNat := by
  have hcons (marker : Text) (ms : List Text) :
      (marker :: ms).countP (fun marker => Text.contains marker line) =
        (Text.contains marker line).toNat + ms.countP fun marker => Text.contains marker line := by
    rw [List.countP_cons, Nat.add_comm]
    cases Text.contains marker line <;> rfl
  have hfile : m.fileVersion.toList.countP (fun marker => Text.contains marker line) =
      (m.isFileVersion line).toNat := by
    rw [← any_fileVersion]
    cases m.fileVersion with
    | none => rfl
    | some f => rw [Option.toList_some, hcons, List.any_cons]; simp
  have hall : m.all = [m.title, m.description, m.company, m.version, m.semanticVersion] := rfl
  rw [every, List.countP_append, hfile, hall]
  simp only [hcons, List.countP_nil]
  omega

theorem containsAny_versions (m : Markers) (line : Text) :
    Text.containsAny m.versions line = (Text.contains m.version line ||
      (Text.contains m.semanticVersion line || m.isFileVersion line)) := by
  rw [Text.containsAny, versions, List.any_append, any_fileVersion, List.any_cons, List.any_cons,
    List.any_nil, Bool.or_false, Bool.or_assoc]

theorem containsAny_all (m : Markers) (line : Text) :
    Text.containsAny m.all line = (Text.contains m.title line || (Text.contains m.description line ||
      (Text.contains m.company line || (Text.contains m.version line ||
        Text.contains m.semanticVersion line)))) := by
  simp only [Text.containsAny, all, Attribute.all, of, List.map_cons, List.map_nil, List.any_cons,
    List.any_nil, Bool.or_false]

/-- The first attribute on a line, marker by marker. -/
theorem attributeIn?_eq (m : Markers) (line : Text) :
    m.attributeIn? line =
      if Text.contains m.title line then some .title
      else if Text.contains m.description line then some .description
      else if Text.contains m.company line then some .company
      else if Text.contains m.version line then some .version
      else if Text.contains m.semanticVersion line then some .semanticVersion
      else none := by
  simp only [attributeIn?, Attribute.all, of, List.find?_cons, List.find?_nil]
  cases Text.contains m.title line <;> cases Text.contains m.description line <;>
    cases Text.contains m.company line <;> cases Text.contains m.version line <;>
    cases Text.contains m.semanticVersion line <;> rfl

end Markers

/-- What a logical line declares: the first attribute whose marker is on it, with its value. -/
def Markers.declaration? (m : Markers) (line : Text) : Option Declaration :=
  (m.attributeIn? line).map fun a => ⟨a, Text.quoted line⟩

/-- What logical lines declare. -/
def Markers.declarations (m : Markers) (gs : List Group) : List Declaration :=
  (gs.filter Group.declares).filterMap fun g => m.declaration? g.text

theorem Markers.declarations_cons (m : Markers) (g : Group) (gs : List Group) :
    m.declarations (g :: gs) =
      (if g.declares then m.declaration? g.text else none).toList ++ m.declarations gs := by
  unfold declarations
  rw [List.filter_cons]
  split
  next =>
    rw [List.filterMap_cons]
    cases m.declaration? g.text <;> rfl
  next => rfl

/-- A step on a line is a step on what it declares. -/
theorem Scan.step_eq (m : Markers) (s : Scan) (line : Text) :
    step m s line =
      match m.declaration? line with
      | some d => declare s d
      | none => s := by
  unfold step Markers.declaration?
  cases m.attributeIn? line with
  | none => rfl
  | some a => cases a <;> rfl

/-- **What a pass finds is a function of the declarations.** -/
theorem Scan.run_eq (m : Markers) (gs : List Group) : run m {} gs = after (m.declarations gs) := by
  have hall := foldl_declare [] (m.declarations gs)
  rw [List.nil_append] at hall
  rw [← hall, Markers.declarations, List.foldl_filterMap, run]
  congr 1
  funext s g
  rw [step_eq]
  cases m.declaration? g.text <;> rfl

/-- The logical lines that reading sees in a text. -/
def Profile.attributeGroups (p : Profile) (content : Text) : List Group :=
  Group.sort p.declaresAttribute p.joinsNextLine false (Line.split content)

/-- What an info file declares. -/
def Profile.declarations (p : Profile) (content : Text) : List Declaration :=
  p.markers.declarations (p.attributeGroups content)

/-- **The record of an info file is what it declares.** -/
theorem Record.scan_ofText (p : Profile) (content : Text) :
    Record.scan p (Source.ofText content) = .ok (Declaration.record (p.declarations content)) := by
  rw [Record.scan, Source.lossy_ofText]
  simp only [Scan.run_eq]
  rfl

end Nameplate
