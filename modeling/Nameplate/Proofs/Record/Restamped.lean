/-
# Reading what has been stamped

Stamping and reading go through an info file in their own ways: stamping keeps
the last version that has a say, reading goes by the kind of the first one. In
a file whose version lines each name one attribute and hold one version, both
see the same versions (`Profile.versions_declarations`). So a stamped file is
read with the version that stamping reports if the first version is a plain
one, and with the value of the first one if that is semantic; the other fields
are what they were (`stampSource_rescanned`).

Key definitions: `Markers.NamesOne`, `Stamped.Rescanned`.
Key theorems: `Profile.versions_declarations`, `stampSource_rescanned`.
-/
import Nameplate.Proofs.Record.Declared
import Nameplate.Proofs.Version.Chain

namespace Nameplate

open Template Stamping

/-! ### What a version line declares -/

/-- The line carries the marker of one attribute and no other. -/
def Markers.NamesOne (m : Markers) (line : Text) : Prop :=
  m.every.countP (fun marker => Text.contains marker line) = 1

/-- The version that a version line declares. -/
def Markers.versionIn (m : Markers) (line : Text) : Declaration :=
  ⟨if Text.contains m.version line then .version else .semanticVersion, Text.quoted line⟩

/-- A version line that names one attribute declares its version, and with the marker of the second
version nothing. -/
theorem Markers.NamesOne.declaration?_eq {m : Markers} {line : Text} (h : m.NamesOne line)
    (hv : Text.containsAny m.versions line = true) :
    m.declaration? line = if m.isFileVersion line then none else some (m.versionIn line) := by
  unfold NamesOne at h
  rw [countP_every] at h
  rw [containsAny_versions] at hv
  rw [declaration?, attributeIn?_eq, versionIn]
  -- one of the markers is there, and it is one of a version
  generalize Text.contains m.title line = t, Text.contains m.description line = d,
    Text.contains m.company line = c, Text.contains m.version line = v,
    Text.contains m.semanticVersion line = s, m.isFileVersion line = f at h hv ⊢
  cases t <;> cases d <;> cases c <;> cases v <;> cases s <;> cases f <;> simp at h hv ⊢

/-- A line that names one attribute has one kind of version. -/
theorem Markers.NamesOne.version_of_semantic {m : Markers} {line : Text} (h : m.NamesOne line)
    (hs : Text.contains m.semanticVersion line = true) : Text.contains m.version line = false := by
  rw [Bool.eq_false_iff]
  intro hv
  unfold NamesOne at h
  rw [countP_every, hs, hv] at h
  simp only [Bool.toNat_true] at h
  omega

/-- What reading takes from a logical line that stamping sees. -/
def Profile.declared? (p : Profile) (g : Group) : Option Declaration :=
  if p.declaresAttribute g.text then p.markers.declaration? g.text else none

/-- A language whose declarations are lines of their own, any of which may declare something. -/
structure Profile.IsLinewise (p : Profile) : Prop where
  joinsNextLine : p.joinsNextLine = false
  required : p.required = []

namespace Profile.IsLinewise

variable {p : Profile} {content : Text} {g : Group}

theorem declares_eq (hp : p.IsLinewise) (hg : g ∈ p.groups content) :
    g.declares = p.declaresVersion g.text := by
  rw [groups_eq_map hp.joinsNextLine] at hg
  obtain ⟨x, -, rfl⟩ := List.mem_map.1 hg
  rw [Group.declares_ofLine, Group.text_ofLine]

/-- The logical lines are the physical ones. -/
theorem exists_line (hp : p.IsLinewise) {i : Nat} (hg : (p.groups content)[i]? = some g) :
    ∃ x, (Line.split content)[i]? = some x ∧ g.text = x.text := by
  rw [groups_eq_map hp.joinsNextLine, List.getElem?_map] at hg
  obtain ⟨x, hx, rfl⟩ := Option.map_eq_some_iff.1 hg
  exact ⟨x, hx, Group.text_ofLine _ x⟩

theorem text_eq (hp : p.IsLinewise) {i : Nat} {x : Line} (hg : (p.groups content)[i]? = some g)
    (hx : (Line.split content)[i]? = some x) : g.text = x.text := by
  obtain ⟨y, hy, htext⟩ := hp.exists_line hg
  rw [htext, Option.some.inj (hy.symm.trans hx)]

theorem declaresAttribute_eq (hp : p.IsLinewise) (line : Text) :
    p.declaresAttribute line = p.mayDeclare line := by
  rw [declaresAttribute, hp.required, List.isEmpty_nil, Bool.true_or, Bool.and_true]

/-- Reading and stamping see the same lines. -/
theorem declarations_eq (hp : p.IsLinewise) (content : Text) :
    p.declarations content = (p.groups content).filterMap p.declared? := by
  have hlines (ls : List Line) :
      p.markers.declarations (ls.map (Group.ofLine p.declaresAttribute)) =
        (ls.map (Group.ofLine p.declaresVersion)).filterMap p.declared? := by
    induction ls with
    | nil => rfl
    | cons x ls ih =>
      rw [List.map_cons, List.map_cons, Markers.declarations_cons, ih, List.filterMap_cons,
        declared?, Group.declares_ofLine, Group.text_ofLine, Group.text_ofLine]
      cases hd : (if p.declaresAttribute x.text then p.markers.declaration? x.text else none) <;> rfl
  rw [declarations, attributeGroups, hp.joinsNextLine, Group.sort_eq_map, hlines,
    groups_eq_map hp.joinsNextLine]

/-- What no version line declares is no version. -/
theorem declared?_of_other (hp : p.IsLinewise) (hg : g ∈ p.groups content)
    (hd : g.declares = false) {d : Declaration} (h : p.declared? g = some d) :
    d.kind.isVersion = false := by
  rw [hp.declares_eq hg, declaresVersion, Bool.and_eq_false_iff] at hd
  unfold declared? at h
  rw [hp.declaresAttribute_eq] at h
  split at h
  next hmay =>
    have hnone : Text.containsAny p.markers.versions g.text = false :=
      hd.resolve_left fun hf => by simp [hmay] at hf
    have hversion (a : Attribute) (ha : p.markers.of a ∈ p.markers.versions) :
        Text.contains (p.markers.of a) g.text = false := by
      have hnot := List.any_eq_false.1 hnone _ ha
      simpa using hnot
    obtain ⟨a, ha, rfl⟩ := Option.map_eq_some_iff.1 h
    have hfound := List.find?_some ha
    cases a with
    | title | description | company => rfl
    | version =>
      rw [hversion .version (by simp [Markers.versions, Markers.of])] at hfound
      exact absurd hfound Bool.false_ne_true
    | semanticVersion =>
      rw [hversion .semanticVersion (by simp [Markers.versions, Markers.of])] at hfound
      exact absurd hfound Bool.false_ne_true
  next => exact absurd h (Option.some_ne_none d).symm

/-- A version line that names one attribute declares a version if it has a say. -/
theorem declared?_of_version (hp : p.IsLinewise) (hg : g ∈ p.groups content)
    (hd : g.declares = true) (hone : p.markers.NamesOne g.text) :
    p.declared? g = if reports p.markers g then some (p.markers.versionIn g.text) else none := by
  have hversion := hd
  rw [hp.declares_eq hg, declaresVersion, Bool.and_eq_true] at hversion
  rw [declared?, hp.declaresAttribute_eq, if_pos hversion.1, hone.declaration?_eq hversion.2,
    reports, hd, Bool.true_and]
  cases p.markers.isFileVersion g.text <;> rfl

end Profile.IsLinewise

/-- **The versions that are read are the ones that have a say.** -/
theorem Profile.versions_declarations {p : Profile} (hp : p.IsLinewise) {content : Text}
    (hone : ∀ g ∈ p.groups content, g.declares = true → p.markers.NamesOne g.text) :
    Declaration.versions (p.declarations content) =
      ((p.groups content).filter (reports p.markers)).map fun g => p.markers.versionIn g.text := by
  have hkind (line : Text) : (p.markers.versionIn line).kind.isVersion = true := by
    unfold Markers.versionIn
    split <;> rfl
  rw [hp.declarations_eq, Declaration.versions, List.filter_filterMap, ← List.filterMap_eq_map,
    List.filterMap_filter]
  refine List.filterMap_congr fun g hg => ?_
  cases hd : g.declares with
  | false =>
    have hsilent : reports p.markers g = false := by rw [reports, hd, Bool.false_and]
    rw [hsilent]
    cases hdecl : p.declared? g with
    | none => rfl
    | some d => simp [hp.declared?_of_other hg hd hdecl]
  | true =>
    rw [hp.declared?_of_version hg hd (hone g hg hd)]
    cases reports p.markers g <;> simp [hkind]

/-- Behind a plain version the last line that has a say is the one that is read. -/
theorem Declaration.version_eq_lastValue {m : Markers} {gs : List Group} {ds : List Declaration}
    {declared : Group → Declaration} (hvalue : ∀ g, (declared g).value = Text.quoted g.text)
    (hversions : versions ds = (gs.filter (reports m)).map declared)
    (hfirst : firstKind ds ≠ some .semanticVersion) :
    version ds = (lastValue m gs).getD [] := by
  have hvalues : Declaration.value ∘ declared = fun g => Text.quoted g.text := funext hvalue
  rw [version_of_plain hfirst, hversions, List.getLast?_map, Option.map_map, hvalues, lastValue]

/-! ### Before stamping and after -/

/-- A language none of whose markers can be found in a version value. -/
theorem Language.isForeign_every (l : Language) : ∀ m ∈ l.profile.markers.every, IsForeign m := by
  have hall : l.profile.markers.every.all isForeign = true := by cases l <;> decide +kernel
  exact fun m hm => .of_check (List.all_eq_true.1 hall m hm)

theorem Language.isLinewise {l : Language} (hl : l ≠ .cobol) : l.profile.IsLinewise := by
  cases l with
  | cobol => exact absurd rfl hl
  | csharp | visualBasic | tsql | etl => exact ⟨rfl, rfl⟩

namespace Corresponds

variable {l : Language} {g g' : Group}

/-- A stamped line names what it named before. -/
theorem contains_eq {m : Markers} (h : Corresponds m g g') (hd : g.declares = true) {marker : Text}
    (hm : IsForeign marker) : Text.contains marker g'.text = Text.contains marker g.text := by
  obtain ⟨q, v, hq, hv, ht, ht'⟩ := h.around hd
  rw [ht, ht', hm.contains_line_congr hq hv]

theorem namesOne (h : Corresponds l.profile.markers g g') (hd : g.declares = true)
    (hone : l.profile.markers.NamesOne g.text) : l.profile.markers.NamesOne g'.text := by
  unfold Markers.NamesOne at hone ⊢
  rw [← hone]
  refine List.countP_congr fun marker hm => ?_
  rw [h.contains_eq hd (l.isForeign_every marker hm)]

end Corresponds

/-- What is no version is declared after stamping as it was before. -/
theorem Declaration.last_restamped {l : Language} (hl : l.profile.IsLinewise) {content new : Text}
    (hcor : List.Forall₂ (Corresponds l.profile.markers) (l.profile.groups content)
      (l.profile.groups new))
    (hone : ∀ g ∈ l.profile.groups content, g.declares = true → l.profile.markers.NamesOne g.text)
    {a : Attribute} (ha : a.isVersion = false) :
    last a (l.profile.declarations new) = last a (l.profile.declarations content) := by
  have hversion (line : Text) :
      (some (l.profile.markers.versionIn line)).filter (fun d => d.kind = a) = none := by
    refine Option.filter_eq_none_iff.2 fun d hd hk => ?_
    obtain rfl := Option.some.inj hd
    obtain rfl := of_decide_eq_true hk
    unfold Markers.versionIn at ha
    split at ha <;> exact Bool.noConfusion ha
  have hline {g g' : Group} (hg : g ∈ l.profile.groups content) (hg' : g' ∈ l.profile.groups new)
      (h : Corresponds l.profile.markers g g') :
      (l.profile.declared? g').filter (fun d => d.kind = a) =
        (l.profile.declared? g).filter (fun d => d.kind = a) := by
    cases hd : g.declares with
    | false => rw [h.kept hd]
    | true =>
      have hd' : g'.declares = true := h.declares_eq.trans hd
      rw [hl.declared?_of_version hg hd (hone g hg hd),
        hl.declared?_of_version hg' hd' (h.namesOne hd (hone g hg hd))]
      rw [h.reports_eq]
      split
      next => rw [hversion, hversion]
      next => rfl
  have hall : ∀ {gs gs' : List Group}, List.Forall₂ (Corresponds l.profile.markers) gs gs' →
      gs ⊆ l.profile.groups content → gs' ⊆ l.profile.groups new →
      gs'.filterMap (fun g => (l.profile.declared? g).filter fun d => d.kind = a) =
        gs.filterMap (fun g => (l.profile.declared? g).filter fun d => d.kind = a) := by
    intro gs gs' h
    induction h with
    | nil => exact fun _ _ => rfl
    | cons h _ ih =>
      intro hgs hgs'
      rw [List.cons_subset] at hgs hgs'
      rw [List.filterMap_cons, List.filterMap_cons, hline hgs.1 hgs'.1 h, ih hgs.2 hgs'.2]
  rw [last, last, hl.declarations_eq, hl.declarations_eq, List.filter_filterMap,
    List.filter_filterMap, hall hcor (List.Subset.refl _) (List.Subset.refl _)]

/-- The first line that has a say, before stamping and after. -/
theorem Corresponds.exists_first {m : Markers} {gs gs' : List Group}
    (h : List.Forall₂ (Corresponds m) gs gs') {i : Nat} (hi : gs.findIdx? (reports m) = some i) :
    ∃ g g', gs[i]? = some g ∧ gs'[i]? = some g' ∧ Corresponds m g g' ∧ reports m g = true ∧
      (gs'.filter (reports m)).head? = some g' := by
  induction h generalizing i with
  | nil => simp at hi
  | @cons g g' gs gs' hcor _ ih =>
    rw [List.findIdx?_cons] at hi
    by_cases hsay : reports m g = true
    · rw [if_pos hsay, Option.some.injEq] at hi
      subst hi
      refine ⟨g, g', rfl, rfl, hcor, hsay, ?_⟩
      rw [List.filter_cons, if_pos (hcor.reports_eq.trans hsay), List.head?_cons]
    · rw [if_neg hsay] at hi
      obtain ⟨j, hj, rfl⟩ := Option.map_eq_some_iff.1 hi
      obtain ⟨g₀, g₀', h₀, h₀', hcor₀, hsay₀, hhead⟩ := ih hj
      refine ⟨g₀, g₀', h₀, h₀', hcor₀, hsay₀, ?_⟩
      rw [List.filter_cons, if_neg (by rwa [hcor.reports_eq]), hhead]

theorem Template.IsTemplate.isBlank_eq_false {v : Text} (h : IsTemplate v) :
    Text.isBlank v = false := by
  have hbase {base : Text} (hb : IsBase base) (rest : Text) : Text.isBlank (base ++ rest) = false := by
    obtain ⟨c, hc⟩ := List.exists_mem_of_ne_nil base hb.ne_nil
    refine List.all_eq_false.2 ⟨c, List.mem_append_left rest hc, ?_⟩
    have hchar := hb.chars c hc
    rw [isBaseChar, isNumberChar, Bool.or_eq_true, Bool.or_eq_true, beq_iff_eq, beq_iff_eq] at hchar
    rcases hchar with (hd | rfl) | rfl
    · rw [Text.isBlankChar_of_isDigit hd]
      exact Bool.false_ne_true
    · decide
    · decide
  cases h with
  | plain hb => simpa using hbase hb []
  | marked hb _ =>
    rw [List.append_assoc]
    exact hbase hb _

/-- What is read of a stamped file, `old` being what was read before and `r` the answer of stamping.
The kind of the first version line without the second version decides which version it is. -/
structure Stamped.Rescanned (p : Profile) (content : Text) (old new : Record) (r : Stamped) :
    Prop where
  title : new.title = old.title
  description : new.description = old.description
  company : new.company = old.company
  plain : ∀ i x, (p.groups content).findIdx? (reports p.markers) = some i →
    (Line.split content)[i]? = some x → Text.contains p.markers.version x.text = true →
    new.version = r.version
  semantic : ∀ i x, (p.groups content).findIdx? (reports p.markers) = some i →
    (Line.split content)[i]? = some x → Text.contains p.markers.semanticVersion x.text = true →
    ∃ y, (Line.split r.content)[i]? = some y ∧ new.version = Text.quoted y.text

section Restamping

variable {l : Language} {content new : Text} {i : Nat} {x : Line}
  (hcor : List.Forall₂ (Corresponds l.profile.markers) (l.profile.groups content)
    (l.profile.groups new))
  (hone : ∀ g ∈ l.profile.groups content, g.declares = true → l.profile.markers.NamesOne g.text)

include hcor hone

theorem Corresponds.forall_namesOne :
    ∀ g ∈ l.profile.groups new, g.declares = true → l.profile.markers.NamesOne g.text := by
  intro g' hg' hd'
  obtain ⟨g, hg, h⟩ := Corresponds.exists_left hcor g' hg'
  have hd : g.declares = true := h.declares_eq ▸ hd'
  exact h.namesOne hd (hone g hg hd)

/-- Where the first line that has a say carried a plain version, the last one is read. -/
theorem version_restamped_of_plain (hl : l ≠ .cobol)
    (hi : (l.profile.groups content).findIdx? (reports l.profile.markers) = some i)
    (hx : (Line.split content)[i]? = some x)
    (hplain : Text.contains l.profile.markers.version x.text = true) :
    Declaration.version (l.profile.declarations new) =
      (lastValue l.profile.markers (l.profile.groups new)).getD [] := by
  have hlinewise := Language.isLinewise hl
  have hversions := Profile.versions_declarations hlinewise (Corresponds.forall_namesOne hcor hone)
  obtain ⟨g, g', hg, -, hcor₀, hsay, hhead⟩ := Corresponds.exists_first hcor hi
  have hd : g.declares = true := Stamping.declares_of_reports hsay
  have hkind : Text.contains l.profile.markers.version g'.text = true := by
    rw [hcor₀.contains_eq hd (l.isSteady.version (by simp [Markers.versions])),
      hlinewise.text_eq hg hx]
    exact hplain
  have hfirst : Declaration.firstKind (l.profile.declarations new) = some .version := by
    rw [Declaration.firstKind, hversions, List.head?_map, hhead, Option.map_some, Option.map_some,
      Markers.versionIn, if_pos hkind]
  refine Declaration.version_eq_lastValue (fun _ => rfl) hversions ?_
  rw [hfirst]
  decide

/-- Where it carried a semantic version, that line itself is read. -/
theorem version_restamped_of_semantic (hl : l ≠ .cobol)
    (hi : (l.profile.groups content).findIdx? (reports l.profile.markers) = some i)
    (hx : (Line.split content)[i]? = some x)
    (hsemantic : Text.contains l.profile.markers.semanticVersion x.text = true) :
    ∃ y, (Line.split new)[i]? = some y ∧
      Declaration.version (l.profile.declarations new) = Text.quoted y.text := by
  have hlinewise := Language.isLinewise hl
  have hone' := Corresponds.forall_namesOne hcor hone
  have hversions := Profile.versions_declarations hlinewise hone'
  obtain ⟨g, g', hg, hg', hcor₀, hsay, hhead⟩ := Corresponds.exists_first hcor hi
  have hd : g.declares = true := Stamping.declares_of_reports hsay
  have hmarker : Text.contains l.profile.markers.semanticVersion g'.text = true := by
    rw [hcor₀.semantic_eq, hlinewise.text_eq hg hx]
    exact hsemantic
  have hnames := hone' g' (List.mem_of_getElem? hg') (hcor₀.declares_eq.trans hd)
  have hfirst : (Declaration.versions (l.profile.declarations new)).head? =
      some ⟨.semanticVersion, Text.quoted g'.text⟩ := by
    rw [hversions, List.head?_map, hhead, Option.map_some, Markers.versionIn,
      hnames.version_of_semantic hmarker]
    rfl
  -- the value is that of a version, so there is no looking for another one
  obtain ⟨q, v, hq, hv, -, htext⟩ := hcor₀.around hd
  have hvalue : Text.quoted g'.text = v := by rw [htext, hq.quoted_line]
  have hblank : Text.isBlank (Text.quoted g'.text) = false := by
    rw [hvalue]
    exact hv.isBlank_eq_false
  obtain ⟨y, hy, hgy⟩ := hlinewise.exists_line hg'
  refine ⟨y, hy, ?_⟩
  rw [Declaration.version_of_semantic hfirst rfl hblank, hgy]

end Restamping

/-- **Reading a stamped file.** In a well-formed file whose version lines each name one attribute,
the version that is read is the one reported, or the first one if that is semantic. -/
theorem stampSource_rescanned (l : Language) (hl : l ≠ .cobol) (o : StampOptions) (ho : o.IsPlain)
    (path : Path) (content : Text) (hw : l.profile.WellFormed content)
    (hone : ∀ g ∈ l.profile.groups content, g.declares = true →
      l.profile.markers.NamesOne g.text) :
    ∃ (r : Stamped) (old new : Record),
      stampSource l.profile o path (Source.ofText content) = .ok r ∧
      Record.scan l.profile (Source.ofText content) = .ok old ∧
      Record.scan l.profile (Source.ofText r.content) = .ok new ∧
      r.Rescanned l.profile content old new := by
  obtain ⟨r, hr, -, hcor, hlast⟩ := stampSource_readBack l.isSteady ho path hw
  have hkept (a : Attribute) (ha : a.isVersion = false) :=
    Declaration.last_restamped (Language.isLinewise hl) hcor hone ha
  refine ⟨r, _, _, hr, Record.scan_ofText _ _, Record.scan_ofText _ _,
    hkept .title rfl, hkept .description rfl, hkept .company rfl, ?_, ?_⟩
  · intro i x hi hx hplain
    have hversion := version_restamped_of_plain hcor hone hl hi hx hplain
    rw [hlast, Option.getD_some] at hversion
    exact hversion
  · intro i x hi hx hsemantic
    exact version_restamped_of_semantic hcor hone hl hi hx hsemantic

/-- A file whose first version is a plain one, behind one with the second version. -/
def plainFirst : Text :=
  "AssemblyFileVersion \"1.*\"\nAssemblyVersion \"1.*\"\n".toList ++
    "AssemblyInformationalVersion \"1.0-d\"\n"

theorem groups_plainFirst : Language.csharp.profile.groups plainFirst =
    [.single ⟨"AssemblyFileVersion \"1.*\"", .lineFeed⟩,
      .single ⟨"AssemblyVersion \"1.*\"", .lineFeed⟩,
      .single ⟨"AssemblyInformationalVersion \"1.0-d\"", .lineFeed⟩] := by
  -- literals are taken apart first, since evaluating them is what would take long
  unfold Language.profile Markers.assembly plainFirst
  repeat rw [String.toList_ofList]
  decide +kernel

/-- A file whose first version is a semantic one. -/
def semanticFirst : Text :=
  "DbTitle = \"t\"\nDbInformationalVersion = \"1.0-d\"\nDbVersion = \"1.*\"".toList

theorem groups_semanticFirst : Language.tsql.profile.groups semanticFirst =
    [.other ⟨"DbTitle = \"t\"", .lineFeed⟩,
      .single ⟨"DbInformationalVersion = \"1.0-d\"", .lineFeed⟩,
      .single ⟨"DbVersion = \"1.*\"", .none⟩] := by
  unfold Language.profile Markers.database semanticFirst
  repeat rw [String.toList_ofList]
  decide +kernel

theorem wellFormed_plainFirst : Language.csharp.profile.WellFormed plainFirst := by
  have hnumeric : IsTemplate "1.*" := .plain ⟨by decide, List.all_eq_true.1 (by decide)⟩
  have hsemantic : IsTemplate "1.0-d" :=
    @IsBase.isTemplate_mark "1.0" ⟨by decide, List.all_eq_true.1 (by decide)⟩
  refine ⟨Text.returnsEndLines_of_notMem (by decide), ?_, ?_⟩
  · rw [groups_plainFirst]
    exact List.any_eq_true.1 (by decide +kernel)
  · rw [groups_plainFirst]
    simp only [List.forall_mem_cons]
    refine ⟨fun _ => ?_, fun _ => ?_, fun _ => ?_, by simp⟩
    · exact ⟨⟨"AssemblyFileVersion ", "1.*", []⟩, ⟨by decide, by decide, hnumeric⟩, by decide⟩
    · exact ⟨⟨"AssemblyVersion ", "1.*", []⟩, ⟨by decide, by decide, hnumeric⟩, by decide⟩
    · exact ⟨⟨"AssemblyInformationalVersion ", "1.0-d", []⟩, ⟨by decide, by decide, hsemantic⟩,
        by decide⟩

theorem wellFormed_semanticFirst : Language.tsql.profile.WellFormed semanticFirst := by
  have hsemantic : IsTemplate "1.0-d" :=
    @IsBase.isTemplate_mark "1.0" ⟨by decide, List.all_eq_true.1 (by decide)⟩
  have hnumeric : IsTemplate "1.*" := .plain ⟨by decide, List.all_eq_true.1 (by decide)⟩
  refine ⟨Text.returnsEndLines_of_notMem (by decide), ?_, ?_⟩
  · rw [groups_semanticFirst]
    exact List.any_eq_true.1 (by decide +kernel)
  · rw [groups_semanticFirst]
    simp only [List.forall_mem_cons]
    refine ⟨fun hd => absurd hd (by decide), fun _ => ?_, fun _ => ?_, by simp⟩
    · exact ⟨⟨"DbInformationalVersion = ", "1.0-d", []⟩, ⟨by decide, by decide, hsemantic⟩,
        by decide⟩
    · exact ⟨⟨"DbVersion = ", "1.*", []⟩, ⟨by decide, by decide, hnumeric⟩, by decide⟩

/-- Behind a plain version the last one is both reported and read; behind a semantic one the last
one is reported, and the first one is read. -/
theorem stampSource_rescanned_first :
    (∃ (r : Stamped) (new : Record),
      stampSource Language.csharp.profile { versionPart := some ['7'], now := ⟨2019, 1, 1, 12, 0⟩ }
        "info" (Source.ofText plainFirst) = .ok r ∧
      Record.scan Language.csharp.profile (Source.ofText r.content) = .ok new ∧
      r.version = "1.0-d201901011200".toList ∧ new.version = r.version) ∧
    ∃ (r : Stamped) (new : Record),
      stampSource Language.tsql.profile { versionPart := some ['7'], now := ⟨2019, 1, 1, 12, 0⟩ }
        "info" (Source.ofText semanticFirst) = .ok r ∧
      Record.scan Language.tsql.profile (Source.ofText r.content) = .ok new ∧
      new.title = "t".toList ∧ r.version = "1.0".toList ∧
      new.version = "1.0-d201901011200".toList := by
  have hplain : StampOptions.IsPlain
      { versionPart := some ['7'], now := ⟨2019, 1, 1, 12, 0⟩ } :=
    ⟨⟨['7'], rfl, by decide, List.all_eq_true.1 (by decide)⟩, by simp, by simp, by decide⟩
  constructor
  · have hone : ∀ g ∈ Language.csharp.profile.groups plainFirst, g.declares = true →
        Language.csharp.profile.markers.NamesOne g.text := by
      rw [groups_plainFirst]
      unfold Markers.NamesOne Language.profile Markers.assembly
      repeat rw [String.toList_ofList]
      decide +kernel
    obtain ⟨r, old, new, hr, -, hnew, hread⟩ := stampSource_rescanned .csharp (by decide) _ hplain
      "info" plainFirst wellFormed_plainFirst hone
    have hversion := hread.plain 1 ⟨"AssemblyVersion \"1.*\"", .lineFeed⟩
      (by rw [groups_plainFirst]; decide +kernel) (by decide +kernel) (by decide +kernel)
    refine ⟨r, new, hr, hnew, ?_, hversion⟩
    have hstamped : stampSource Language.csharp.profile
        { versionPart := some ['7'], now := ⟨2019, 1, 1, 12, 0⟩ } "info" (Source.ofText plainFirst) =
        .ok ⟨"AssemblyFileVersion \"1.7.0.0\"\nAssemblyVersion \"1.7.0.0\"\n".toList ++
            "AssemblyInformationalVersion \"1.0-d201901011200\"\n",
          "1.0-d201901011200", true, ⟨"1.0", "1.0-d"⟩, "info"⟩ := by
      rw [stampSource_ofText, groups_plainFirst]
      unfold Language.profile Markers.assembly
      repeat rw [String.toList_ofList]
      decide +kernel
    rw [Except.ok.inj (hr.symm.trans hstamped)]
  · have hone : ∀ g ∈ Language.tsql.profile.groups semanticFirst, g.declares = true →
        Language.tsql.profile.markers.NamesOne g.text := by
      rw [groups_semanticFirst]
      unfold Markers.NamesOne Language.profile Markers.database
      repeat rw [String.toList_ofList]
      decide +kernel
    obtain ⟨r, old, new, hr, hold, hnew, hread⟩ := stampSource_rescanned .tsql (by decide) _ hplain
      "info" semanticFirst wellFormed_semanticFirst hone
    have hstamped : stampSource Language.tsql.profile
        { versionPart := some ['7'], now := ⟨2019, 1, 1, 12, 0⟩ } "info"
        (Source.ofText semanticFirst) =
        .ok ⟨"DbTitle = \"t\"\nDbInformationalVersion = \"1.0-d201901011200\"\n".toList ++
            "DbVersion = \"1.0\"", "1.0", true, ⟨"1.0", "1.0-d"⟩, "info"⟩ := by
      rw [stampSource_ofText, groups_semanticFirst]
      unfold Language.profile Markers.database
      repeat rw [String.toList_ofList]
      decide +kernel
    obtain rfl := Except.ok.inj (hr.symm.trans hstamped)
    have htitle : old.title = "t".toList := by
      rw [Record.scan_ofText] at hold
      rw [← Except.ok.inj hold]
      decide +kernel
    obtain ⟨y, hy, hversion⟩ := hread.semantic 1 ⟨"DbInformationalVersion = \"1.0-d\"", .lineFeed⟩
      (by rw [groups_semanticFirst]; decide +kernel) (by decide +kernel) (by decide +kernel)
    have hline : y = ⟨"DbInformationalVersion = \"1.0-d201901011200\"", .lineFeed⟩ :=
      Option.some.inj (hy.symm.trans (by decide +kernel))
    refine ⟨_, new, hr, hnew, hread.title.trans htitle, rfl, ?_⟩
    rw [hversion, hline]
    decide +kernel

end Nameplate
