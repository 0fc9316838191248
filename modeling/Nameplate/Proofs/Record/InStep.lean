/-
# Reading and stamping in step

Where a declaration goes on to the next line, a pass that sees a declaration
takes the next line with it, whatever that one holds. Reading and stamping
open on different declarations: reading on titles, descriptions, companies and
versions, stamping on versions and second versions. So one of them may take up
a version as the second line of a declaration that the other one does not
open on, and then they disagree (`Record.scan_reported_outOfStep`).

When neither does, the two passes may still be a line apart for a while, but
they come to every version together (`Group.inPhase`). If besides no version
is joined with a line that makes another attribute of it, the version that is
read is the version that stamping reports when it changes nothing
(`Record.scan_reported`).

Key definitions: `Group.InPhase`, `Profile.InStep`.
Key theorems: `Group.inPhase`, `Record.scan_reported`.
-/
import Nameplate.Proofs.Record.Restamped
import Nameplate.Proofs.Version.Settled

namespace Nameplate

/-! ### Two passes over the same lines -/

namespace Group

/-- The line that a logical line begins with. -/
def first : Group → Line
  | .other l | .single l | .pair l _ => l

/-- Whether the logical line is a declaration that begins with a line of a given kind. -/
def opensWith (own : Text → Bool) (g : Group) : Bool := g.declares && own g.first.text

/-- No line of the kind is taken up by a declaration of another kind. -/
def Apart (own : Text → Bool) : Group → Prop
  | .pair a b => own a.text = false → own b.text = false
  | _ => True

instance (own : Text → Bool) : (g : Group) → Decidable (g.Apart own)
  | .pair a b => inferInstanceAs (Decidable (own a.text = false → own b.text = false))
  | .other _ | .single _ => inferInstanceAs (Decidable True)

/-- Two passes, each over its own lines, that take up no line of the kind they have in common find
the same declarations of that kind. -/
def InPhase (own opens opens' : Text → Bool) (ls ls' : List Line) : Prop :=
  (∀ g ∈ sort opens true false ls, g.Apart own) →
    (∀ g ∈ sort opens' true false ls', g.Apart own) →
      (sort opens true false ls).filter (opensWith own) =
        (sort opens' true false ls').filter (opensWith own)

variable {own opens opens' : Text → Bool}

theorem InPhase.symm {ls ls' : List Line} (h : InPhase own opens opens' ls ls') :
    InPhase own opens' opens ls' ls := fun ha ha' => (h ha' ha).symm

theorem filter_cons_of_own {g : Group} (h : own g.first.text = false) (gs : List Group) :
    (g :: gs).filter (opensWith own) = gs.filter (opensWith own) := by
  rw [List.filter_cons, if_neg (by simp [opensWith, h])]

/-- A logical line begins with a line of the file, which decides whether it is a declaration. -/
theorem first_of_mem_sort {joins : Bool} (ls : List Line) :
    ∀ g ∈ sort opens joins false ls, g.first ∈ ls ∧ g.declares = opens g.first.text := by
  have hgrouped : Grouped opens joins ls (sort opens joins false ls) := grouped_sort ls
  generalize sort opens joins false ls = gs at hgrouped ⊢
  induction hgrouped with
  | nil => exact fun g hg => absurd hg List.not_mem_nil
  | @other l ls gs ho _ ih =>
    refine List.forall_mem_cons.2 ⟨⟨List.mem_cons_self, ho.symm⟩, fun g hg => ?_⟩
    exact ⟨List.mem_cons_of_mem l (ih g hg).1, (ih g hg).2⟩
  | @single l ls gs ho _ _ ih =>
    refine List.forall_mem_cons.2 ⟨⟨List.mem_cons_self, ho.symm⟩, fun g hg => ?_⟩
    exact ⟨List.mem_cons_of_mem l (ih g hg).1, (ih g hg).2⟩
  | @pair a b ls gs ho _ _ ih =>
    refine List.forall_mem_cons.2 ⟨⟨List.mem_cons_self, ho.symm⟩, fun g hg => ?_⟩
    exact ⟨List.mem_cons_of_mem a (List.mem_cons_of_mem b (ih g hg).1), (ih g hg).2⟩

/-- What is on its first line is on the logical line. -/
theorem contains_of_first {marker : Text} {g : Group}
    (h : Text.contains marker g.first.text = true) : Text.contains marker g.text = true := by
  rw [Text.contains_iff] at h ⊢
  cases g with
  | other l | single l => exact h
  | pair a b => exact h.trans (List.prefix_append a.text b.text).isInfix

/-- A line that opens nothing is passed over. -/
theorem InPhase.other_left {l : Line} {ls ls' : List Line} (hl : opens l.text = false)
    (h : InPhase own opens opens' ls ls') : InPhase own opens opens' (l :: ls) ls' := by
  unfold InPhase at h ⊢
  rw [sort_cons_other hl]
  intro ha ha'
  have hskip : (Group.other l :: sort opens true false ls).filter (opensWith own) =
      (sort opens true false ls).filter (opensWith own) := by
    rw [List.filter_cons, if_neg (by simp [opensWith, declares])]
  rw [hskip]
  exact h (List.forall_mem_cons.1 ha).2 ha'

/-- A declaration of another kind is passed over with the line it takes up, which is then none of
the kind. -/
theorem InPhase.pair_left {a b : Line} {ls ls' : List Line} (ho : opens a.text = true)
    (hown : own a.text = false)
    (h : own b.text = false → InPhase own opens opens' ls ls') :
    InPhase own opens opens' (a :: b :: ls) ls' := by
  unfold InPhase at h ⊢
  rw [sort_cons_pair ho, filter_cons_of_own hown]
  intro ha ha'
  obtain ⟨hapart, ha⟩ := List.forall_mem_cons.1 ha
  exact h (hapart hown) ha ha'

/-- A pass that is a line behind falls in step, or falls a line behind the other one. -/
theorem InPhase.behind {l : Line} {ls : List Line} (hsame : InPhase own opens opens' (l :: ls) (l :: ls))
    (hbehind : ∀ x : Line, own x.text = false → InPhase own opens' opens (x :: ls) ls) (x : Line)
    (hx : own x.text = false) : InPhase own opens opens' (x :: l :: ls) (l :: ls) := by
  cases ho : opens x.text with
  | false => exact hsame.other_left ho
  | true => exact .pair_left ho hx fun hl => (hbehind l hl).symm

/-- A line that both passes take for the last one. -/
theorem inPhase_singleton {l : Line} (hown : own l.text = (opens l.text && opens' l.text)) :
    InPhase own opens opens' [l] [l] := by
  intro _ _
  cases ho : opens l.text <;> cases ho' : opens' l.text <;> rw [ho, ho'] at hown <;>
    simp [sort, ho, ho', opensWith, declares, first, hown]

/-- A line that another one follows: what both open is taken by both, and what only one of them
opens puts the other one behind. -/
theorem InPhase.cons {l n : Line} {ls : List Line}
    (hown : own l.text = (opens l.text && opens' l.text))
    (hnext : InPhase own opens opens' (n :: ls) (n :: ls)) (hsame : InPhase own opens opens' ls ls)
    (hahead : ∀ x : Line, own x.text = false → InPhase own opens' opens (x :: ls) ls)
    (hbehind : ∀ x : Line, own x.text = false → InPhase own opens opens' (x :: ls) ls) :
    InPhase own opens opens' (l :: n :: ls) (l :: n :: ls) := by
  cases ho : opens l.text with
  | false =>
    refine .other_left ho (.symm ?_)
    cases ho' : opens' l.text with
    | false => exact .other_left ho' hnext.symm
    | true =>
      have hl : own l.text = false := by rw [hown, ho, Bool.false_and]
      exact .pair_left ho' hl fun hn => (hbehind n hn).symm
  | true =>
    cases ho' : opens' l.text with
    | false =>
      have hl : own l.text = false := by rw [hown, ho', Bool.and_false]
      refine .symm (.other_left ho' (.symm ?_))
      exact .pair_left ho hl fun hn => (hahead n hn).symm
    | true =>
      unfold InPhase at hsame ⊢
      rw [sort_cons_pair ho, sort_cons_pair ho']
      intro ha ha'
      rw [List.filter_cons, List.filter_cons,
        hsame (List.forall_mem_cons.1 ha).2 (List.forall_mem_cons.1 ha').2]

/-- **Two passes come to the declarations they have in common together**, be they on the same line
or one of them a line behind. -/
theorem inPhase : ∀ (ls : List Line) {opens opens' : Text → Bool},
    (∀ l ∈ ls, own l.text = (opens l.text && opens' l.text)) →
      InPhase own opens opens' ls ls ∧
        ∀ x : Line, own x.text = false → InPhase own opens opens' (x :: ls) ls
  | [], opens, opens', _ => by
    refine ⟨fun _ _ => rfl, fun x hx _ _ => ?_⟩
    cases ho : opens x.text <;> simp [sort, ho, opensWith, first, hx]
  | [l], opens, opens', hown => by
    have hsame := inPhase_singleton (hown l List.mem_cons_self)
    have hbehind : ∀ x : Line, own x.text = false → InPhase own opens' opens [x] [] :=
      (inPhase [] (by simp)).2
    exact ⟨hsame, hsame.behind hbehind⟩
  | l :: n :: ls, opens, opens', hown => by
    obtain ⟨hl, hrest⟩ := List.forall_mem_cons.1 hown
    have hswap : ∀ x ∈ n :: ls, own x.text = (opens' x.text && opens x.text) := fun x hx => by
      rw [hrest x hx, Bool.and_comm]
    have hnext := inPhase (n :: ls) hrest
    have hls := inPhase ls (List.forall_mem_cons.1 hrest).2
    have hls' := inPhase ls (List.forall_mem_cons.1 hswap).2
    have hsame := InPhase.cons hl hnext.1 hls.1 hls'.2 hls.2
    exact ⟨hsame, hsame.behind (inPhase (n :: ls) hswap).2⟩

end Group

/-! ### Reading and stamping -/

/-- Whether the line declares a plain version, which both reading and stamping open on. -/
def Profile.declaresPlain (p : Profile) (line : Text) : Bool :=
  p.mayDeclare line && Text.contains p.markers.version line

/-- The markers that take a plain version from reading or from stamping: of the attributes that are
looked for before it, and of the second version. -/
def Markers.others (m : Markers) : List Text :=
  [m.title, m.description, m.company] ++ m.fileVersion.toList

/-- A file in which no plain version is taken up by another declaration, and none is joined with a
line that makes something else of it. -/
structure Profile.InStep (p : Profile) (content : Text) : Prop where
  read : ∀ g ∈ p.attributeGroups content, g.Apart p.declaresPlain
  stamped : ∀ g ∈ p.groups content, g.Apart p.declaresPlain
  plain : ∀ g ∈ p.groups content, g.opensWith p.declaresPlain = true →
    Text.containsAny p.markers.others g.text = false

/-- Where a line may carry one marker only, and none of a semantic version, its marker says what it
is. -/
theorem Markers.version_eq_and {m : Markers} {line : Text}
    (hone : m.every.countP (fun marker => Text.contains marker line) ≤ 1)
    (hs : Text.contains m.semanticVersion line = false) :
    Text.contains m.version line =
      (Text.containsAny m.all line && Text.containsAny m.versions line) := by
  rw [countP_every] at hone
  rw [containsAny_all, containsAny_versions, hs]
  generalize Text.contains m.title line = t, Text.contains m.description line = d,
    Text.contains m.company line = c, Text.contains m.version line = v,
    m.isFileVersion line = f at hone ⊢
  cases t <;> cases d <;> cases c <;> cases v <;> cases f <;> simp at hone ⊢

/-- Where no semantic version is anywhere in a file, none is on a line of it. -/
theorem Line.contains_eq_false {marker content : Text} (h : Text.contains marker content = false) :
    ∀ x ∈ Line.split content, Text.contains marker x.text = false := by
  intro x hx
  rw [Bool.eq_false_iff, ne_eq, Text.contains_iff] at h ⊢
  obtain ⟨as, bs, hsplit⟩ := List.append_of_mem hx
  have hcontent := join_split content
  rw [hsplit, join_append, join_cons, whole] at hcontent
  refine fun hm => h (hm.trans ⟨join as, x.ending.text ++ join bs, ?_⟩)
  rw [← hcontent, List.append_assoc, List.append_assoc]

/-- A language whose declarations go on to the next line, and say that they are declarations. -/
structure Profile.IsPairwise (p : Profile) : Prop where
  joinsNextLine : p.joinsNextLine = true
  required : p.required.isEmpty = false

/-- A file each of whose lines names one attribute at most, and none a semantic version. -/
structure Profile.IsPlain (p : Profile) (content : Text) : Prop where
  single : ∀ x ∈ Line.split content,
    p.markers.every.countP (fun marker => Text.contains marker x.text) ≤ 1
  semantic : Text.contains p.markers.semanticVersion content = false

namespace Profile.IsPairwise

variable {p : Profile} {content : Text} {g : Group}

theorem declaresAttribute_eq (hp : p.IsPairwise) (line : Text) :
    p.declaresAttribute line = (p.mayDeclare line && Text.containsAny p.markers.all line) := by
  rw [declaresAttribute, hp.required, Bool.false_or]

/-- Both passes open on the plain versions, and on nothing else that they have in common. -/
theorem declaresPlain_eq (hp : p.IsPairwise) (hc : p.IsPlain content) :
    ∀ x ∈ Line.split content,
      p.declaresPlain x.text = (p.declaresAttribute x.text && p.declaresVersion x.text) := by
  intro x hx
  rw [declaresPlain, hp.declaresAttribute_eq, declaresVersion,
    Markers.version_eq_and (hc.single x hx) (Line.contains_eq_false hc.semantic x hx)]
  cases p.mayDeclare x.text <;> rfl

/-- **Reading and stamping come to the same plain versions.** -/
theorem filter_attributeGroups (hp : p.IsPairwise) (hc : p.IsPlain content) (hs : p.InStep content) :
    (p.attributeGroups content).filter (Group.opensWith p.declaresPlain) =
      (p.groups content).filter (Group.opensWith p.declaresPlain) := by
  have hphase := (Group.inPhase (Line.split content) (hp.declaresPlain_eq hc)).1
  have hread := hs.read
  have hstamped := hs.stamped
  rw [attributeGroups, hp.joinsNextLine] at hread ⊢
  rw [groups, hp.joinsNextLine] at hstamped ⊢
  exact hphase hread hstamped

/-- What reading takes from a declaration is a version only where a plain version opens it. -/
theorem declaration?_eq (hp : p.IsPairwise) (hc : p.IsPlain content) (hs : p.InStep content)
    (hg : g ∈ p.attributeGroups content) (hd : g.declares = true) :
    (p.markers.declaration? g.text).filter (fun d => d.kind.isVersion) =
      if g.opensWith p.declaresPlain then some ⟨.version, Text.quoted g.text⟩ else none := by
  obtain ⟨hfirst, hopens⟩ := Group.first_of_mem_sort (Line.split content) g hg
  rw [hd, hp.declaresAttribute_eq] at hopens
  obtain ⟨hmay, hmarker⟩ := (Bool.and_eq_true _ _).mp hopens.symm
  rw [Group.opensWith, hd, Bool.true_and, declaresPlain, hmay, Bool.true_and, Markers.declaration?,
    Markers.attributeIn?_eq]
  cases hversion : Text.contains p.markers.version g.first.text with
  | true =>
    have hown : g.opensWith p.declaresPlain = true := by
      rw [Group.opensWith, hd, declaresPlain, hmay, hversion]
      rfl
    have hmem : g ∈ (p.groups content).filter (Group.opensWith p.declaresPlain) := by
      rw [← hp.filter_attributeGroups hc hs]
      exact List.mem_filter.2 ⟨hg, hown⟩
    have hothers := hs.plain g (List.mem_filter.1 hmem).1 hown
    rw [Text.containsAny, Markers.others, List.any_append, Bool.or_eq_false_iff] at hothers
    simp only [List.any_cons, List.any_nil, Bool.or_false, Bool.or_eq_false_iff] at hothers
    obtain ⟨⟨htitle, hdescription, hcompany⟩, -⟩ := hothers
    rw [htitle, hdescription, hcompany, Group.contains_of_first hversion]
    rfl
  | false =>
    have hsemantic := Line.contains_eq_false hc.semantic g.first hfirst
    rw [Markers.containsAny_all, hversion, hsemantic, Bool.or_false, Bool.or_false] at hmarker
    simp only [Bool.or_eq_true] at hmarker
    -- the attribute that the first line names is looked for before any version
    rcases hmarker with h | h | h <;> rw [Group.contains_of_first h] <;>
      cases Text.contains p.markers.title g.text <;>
        cases Text.contains p.markers.description g.text <;> rfl

/-- What stamping reports on is what a plain version opens. -/
theorem reports_eq (hc : p.IsPlain content) (hs : p.InStep content) (hg : g ∈ p.groups content) :
    Stamping.reports p.markers g = g.opensWith p.declaresPlain := by
  obtain ⟨hfirst, hopens⟩ := Group.first_of_mem_sort (Line.split content) g hg
  cases hd : g.declares with
  | false => rw [Stamping.reports, Group.opensWith, hd, Bool.false_and, Bool.false_and]
  | true =>
    rw [hd, declaresVersion] at hopens
    obtain ⟨hmay, hmarker⟩ := (Bool.and_eq_true _ _).mp hopens.symm
    rw [Stamping.reports, Group.opensWith, hd, Bool.true_and, Bool.true_and, declaresPlain, hmay,
      Bool.true_and]
    cases hversion : Text.contains p.markers.version g.first.text with
    | true =>
      have hown : g.opensWith p.declaresPlain = true := by
        rw [Group.opensWith, hd, declaresPlain, hmay, hversion]
        rfl
      have hothers := hs.plain g hg hown
      rw [Text.containsAny, Markers.others, List.any_append, Bool.or_eq_false_iff,
        Markers.any_fileVersion] at hothers
      rw [hothers.2, Bool.not_false]
    | false =>
      have hsemantic := Line.contains_eq_false hc.semantic g.first hfirst
      rw [Markers.containsAny_versions, hversion, hsemantic, Bool.false_or, Bool.false_or,
        Markers.isFileVersion, Option.any_eq_true] at hmarker
      obtain ⟨f, hf, hcontains⟩ := hmarker
      have hfile : p.markers.isFileVersion g.text = true :=
        (Option.any_eq_true _ _).2 ⟨f, hf, Group.contains_of_first hcontains⟩
      rw [hfile, Bool.not_true]

end Profile.IsPairwise

theorem Language.isPairwise_cobol : Language.cobol.profile.IsPairwise := ⟨rfl, rfl⟩

/-- The versions of a file in step are those that stamping reports on. -/
theorem Profile.versions_of_inStep {p : Profile} (hp : p.IsPairwise) {content : Text}
    (hc : p.IsPlain content) (hs : p.InStep content) :
    Declaration.versions (p.declarations content) =
      ((p.groups content).filter (Stamping.reports p.markers)).map fun g =>
        ⟨.version, Text.quoted g.text⟩ := by
  have hreports : (p.groups content).filter (Stamping.reports p.markers) =
      (p.groups content).filter (Group.opensWith p.declaresPlain) :=
    List.filter_congr fun g hg => IsPairwise.reports_eq hc hs hg
  rw [hreports, ← hp.filter_attributeGroups hc hs, declarations, Markers.declarations,
    Declaration.versions, List.filter_filterMap, List.filterMap_filter, ← List.filterMap_eq_map,
    List.filterMap_filter]
  refine List.filterMap_congr fun g hg => ?_
  cases hd : g.declares with
  | false => simp [Group.opensWith, hd]
  | true =>
    rw [if_pos rfl, hp.declaration?_eq hc hs hg hd]
    cases Group.opensWith p.declaresPlain g <;> rfl

/-- **In a file in step, the version that is read is the version that is reported** when stamping
leaves the file as it is. -/
theorem Record.scan_reported (o : StampOptions) (ho : o.IsIdle) (path : Path) (content : Text)
    (r : Stamped) (hc : Language.cobol.profile.IsPlain content)
    (hs : Language.cobol.profile.InStep content)
    (h : stampSource Language.cobol.profile o path (Source.ofText content) = .ok r)
    (hsame : r.content = content) :
    ∃ record, Record.scan Language.cobol.profile (Source.ofText content) = .ok record ∧
      record.version = r.version := by
  have hversions := Profile.versions_of_inStep Language.isPairwise_cobol hc hs
  have hlast := stampSource_unchanged ho h hsame
  have hplain : Declaration.firstKind (Language.cobol.profile.declarations content) ≠
      some .semanticVersion := by
    rw [Declaration.firstKind, hversions, List.head?_map]
    intro hk
    obtain ⟨d, hd, hkind⟩ := Option.map_eq_some_iff.1 hk
    obtain ⟨g, -, rfl⟩ := Option.map_eq_some_iff.1 hd
    exact Attribute.noConfusion hkind
  refine ⟨_, Record.scan_ofText _ _, ?_⟩
  show Declaration.version (Language.cobol.profile.declarations content) = r.version
  rw [Declaration.version_eq_lastValue (fun _ => rfl) hversions hplain, hlast, Option.getD_some]

/-- A file with a second version between a title and a version. -/
def titleFirst : Text :=
  "CUSTOM-ATTRIBUTE CA-ASSEMBLYTITLE\nCUSTOM-ATTRIBUTE CA-ASSEMBLYFILEVERSION\n\"2\"\n".toList ++
    "CUSTOM-ATTRIBUTE CA-ASSEMBLYVERSION\n\"1\""

/-- Reading takes the second version up with the title, stamping takes the line behind it, and both
come to the version. -/
theorem Record.scan_reported_behind :
    ∃ (r : Stamped) (record : Record),
      stampSource Language.cobol.profile { now := ⟨2019, 1, 1, 12, 0⟩ } "info"
        (Source.ofText titleFirst) = .ok r ∧
      Record.scan Language.cobol.profile (Source.ofText titleFirst) = .ok record ∧
      r.version = ['1'] ∧ record.version = ['1'] := by
  have hfacts : Language.cobol.profile.IsPlain titleFirst ∧
      Language.cobol.profile.InStep titleFirst ∧
      stampSource Language.cobol.profile { now := ⟨2019, 1, 1, 12, 0⟩ } "info"
        (Source.ofText titleFirst) =
      .ok ⟨titleFirst, ['1'], false, upcoming ['1'] false, "info"⟩ := by
    rw [stampSource_ofText]
    refine ⟨⟨?_, ?_⟩, ⟨?_, ?_, ?_⟩, ?_⟩
    all_goals
      unfold Language.profile Markers.cobol titleFirst
      repeat rw [String.toList_ofList]
      decide +kernel
  obtain ⟨hplain, hstep, hstamped⟩ := hfacts
  obtain ⟨record, hrecord, hversion⟩ :=
    Record.scan_reported _ ⟨rfl, rfl, rfl⟩ "info" _ _ hplain hstep hstamped rfl
  exact ⟨_, record, hstamped, hrecord, rfl, hversion⟩

/-- A file whose lines name one attribute each at most, whose version is reported when stamping leaves
it as it is, and which is read as having another one. -/
structure OutOfStep (content reported : Text) (found : Record) : Prop where
  isPlain : Language.cobol.profile.IsPlain content
  stamped : stampSource Language.cobol.profile { now := ⟨2019, 1, 1, 12, 0⟩ } "info"
    (Source.ofText content) = .ok ⟨content, reported, false, upcoming reported false, "info"⟩
  read : Record.scan Language.cobol.profile (Source.ofText content) = .ok found
  differs : found.version ≠ reported

/-- **Reading and stamping fall out of step** where reading takes a version up with a title or
stamping takes one up with a second version, and where the line that is joined with a version names
a title or a second version. -/
theorem Record.scan_reported_outOfStep :
    OutOfStep "CUSTOM-ATTRIBUTE CA-ASSEMBLYTITLE\nCUSTOM-ATTRIBUTE CA-ASSEMBLYVERSION \"1\"" ['1']
      ⟨['1'], [], [], []⟩ ∧
    OutOfStep ("CUSTOM-ATTRIBUTE CA-ASSEMBLYVERSION\n\"2\"\n".toList ++
      "CUSTOM-ATTRIBUTE CA-ASSEMBLYFILEVERSION\nCUSTOM-ATTRIBUTE CA-ASSEMBLYVERSION \"1\"") ['2']
      ⟨[], [], [], ['1']⟩ ∧
    OutOfStep "CUSTOM-ATTRIBUTE CA-ASSEMBLYVERSION\n\"1\" CA-ASSEMBLYTITLE" ['1']
      ⟨['1'], [], [], []⟩ ∧
    OutOfStep ("CUSTOM-ATTRIBUTE CA-ASSEMBLYVERSION\n\"2\"\n".toList ++
      "CUSTOM-ATTRIBUTE CA-ASSEMBLYVERSION\n\"1\" CA-ASSEMBLYFILEVERSION") ['2']
      ⟨[], [], [], ['1']⟩ := by
  refine ⟨?_, ?_, ?_, ?_⟩
  all_goals
    refine ⟨⟨?_, ?_⟩, ?_, ?_, by decide⟩
    on_goal 3 => rw [stampSource_ofText]
    on_goal 4 => rw [Record.scan_ofText]
    all_goals
      -- literals are taken apart first, since evaluating them is what would take long
      unfold Language.profile Markers.cobol
      repeat rw [String.toList_ofList]
      decide +kernel

end Nameplate
