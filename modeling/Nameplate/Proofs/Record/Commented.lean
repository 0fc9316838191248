/-
# Comment lines

A comment line can be put into an info file wherever a line begins, only not
between the two lines of a declaration, where it would be taken for the second
one. Nowhere else does a pass take notice of it: what is read is the same
record, and what is stamped is the same file with the comment line at its
place (`comment_passedOver`). What the comment says does not matter, be it a
declaration that has been put out of use.

The bytes before the place and those behind it are cut into the lines they
were cut into (`PhysicalLine.split_append_of_terminated`), and these are sorted
into the same logical lines (`Group.sort_append`). A pass carries its state
across the comment line unchanged.

Key definitions: `PhysicalLine.Terminated`, `Group.awaitsLine`,
`Profile.IsComment`, `Stamped.Commented`.
Key theorem: `comment_passedOver`.
-/
import Nameplate.Proofs.Version.Outcome
import Nameplate.Record.Scan

namespace Nameplate

/-! ### Where a line begins -/

namespace PhysicalLine

/-- A line begins behind these bytes: there are none, or they end in a line feed. -/
def Terminated (before : Bytes) : Prop := ∀ b, before.getLast? = some b → b = 0x0A

theorem split_ne_nil {bs : Bytes} (h : bs ≠ []) : split bs ≠ [] := fun hnil =>
  h (by rw [← join_split bs, hnil]; rfl)

theorem extend_append (b : UInt8) {ls : List PhysicalLine} (h : ls ≠ []) (ls' : List PhysicalLine) :
    extend b (ls ++ ls') = extend b ls ++ ls' := by
  cases ls with
  | nil => exact absurd rfl h
  | cons l ls =>
    rw [List.cons_append, extend, extend]
    split <;> rfl

/-- **Where a line begins, a file can be cut before it is cut into lines.** -/
theorem split_append_of_terminated {before : Bytes} (h : Terminated before) (after : Bytes) :
    split (before ++ after) = split before ++ split after := by
  induction before with
  | nil => rfl
  | cons b rest ih =>
    by_cases hrest : rest = []
    · obtain rfl : b = 0x0A := h b (by rw [hrest]; rfl)
      subst hrest
      rfl
    · have hterminated : Terminated rest := fun x hx => h x (by
        rw [← hx, List.getLast?_cons, List.getLast?_eq_some_getLast hrest]
        rfl)
      rw [List.cons_append, split, split, ih hterminated]
      by_cases hb : b = 0x0A
      · rw [if_pos hb, if_pos hb, List.cons_append]
      · rw [if_neg hb, if_neg hb, extend_append b (split_ne_nil hrest)]

/-- A line with a line feed, put where a line begins. -/
theorem split_insert {before : Bytes} (h : Terminated before) {l : Line} (hl : l.IsPhysical)
    (hending : l.ending = .lineFeed) (after : Bytes) :
    split (before ++ (Utf8.encode l.whole ++ after)) =
      split before ++ l.encoded :: split after := by
  have hline : split (Utf8.encode l.whole) = [l.encoded] := by
    have hproper : Line.Proper [l] := ⟨hl, fun _ => rfl, trivial⟩
    have hjoin : Line.join [l] = l.whole := by rw [Line.join_cons, Line.join_nil, List.append_nil]
    rw [Line.split_encode, ← hjoin, Line.split_join hproper]
    rfl
  have hterminated : Terminated (Utf8.encode l.whole) := by
    have hfeed : Utf8.encode (Ending.text .lineFeed) = [0x0A] := by decide
    intro b hb
    rw [Line.whole, hending, Utf8.encode_append, hfeed, List.getLast?_concat] at hb
    exact (Option.some.inj hb).symm
  rw [split_append_of_terminated h, split_append_of_terminated hterminated, hline]
  rfl

end PhysicalLine

/-! ### Logical lines before a place and behind it -/

namespace Group

variable {opens : Text → Bool} {joins : Bool}

/-- Whether the last of the lines opens a declaration that goes on to the next line. The line behind
an opening one opens nothing. -/
def awaitsLine (opens : Text → Bool) : List Line → Bool
  | [] => false
  | [l] => opens l.text
  | l :: next :: rest =>
    if opens l.text then awaitsLine opens rest else awaitsLine opens (next :: rest)

/-- **Where no declaration awaits a line, the lines can be cut before they are sorted.** -/
theorem sort_append {ls : List Line} (h : joins = true → awaitsLine opens ls = false)
    (ls' : List Line) :
    sort opens joins false (ls ++ ls') =
      sort opens joins false ls ++ sort opens joins false ls' := by
  cases joins with
  | false => rw [sort_eq_map, sort_eq_map, sort_eq_map, List.map_append]
  | true =>
    replace h := h rfl
    induction ls using awaitsLine.induct opens with
    | case1 => rfl
    | case2 l =>
      rw [List.singleton_append, sort_cons_other h, sort_cons_other h]
      rfl
    | case3 l next rest hopens ih =>
      rw [awaitsLine, if_pos hopens] at h
      rw [List.cons_append, List.cons_append, sort_cons_pair hopens, sort_cons_pair hopens, ih h]
      rfl
    | case4 l next rest hopens ih =>
      rw [awaitsLine, if_neg hopens] at h
      have hother : opens l.text = false := by simpa using hopens
      rw [List.cons_append, sort_cons_other hother, sort_cons_other hother, ih h]
      rfl

/-- A line that opens nothing is a logical line at its place. -/
theorem sort_insert {ls : List Line} (h : joins = true → awaitsLine opens ls = false) {l : Line}
    (hl : opens l.text = false) (ls' : List Line) :
    sort opens joins false (ls ++ l :: ls') =
      sort opens joins false ls ++ .other l :: sort opens joins false ls' := by
  rw [sort_append h, sort_cons_other hl]

end Group

/-- A line that is a comment and nothing else, and that can be ended by a line feed. -/
structure Profile.IsComment (p : Profile) (line : Text) : Prop where
  isUncommented_eq : p.isUncommented line = false
  lineFeed_notMem : '\n' ∉ line
  noReturn : line.getLast? ≠ some '\r'

namespace Profile.IsComment

variable {p : Profile} {line : Text}

theorem mayDeclare_eq (h : p.IsComment line) : p.mayDeclare line = false := by
  rw [mayDeclare, h.isUncommented_eq, Bool.false_and]

theorem declaresAttribute_eq (h : p.IsComment line) : p.declaresAttribute line = false := by
  rw [declaresAttribute, h.mayDeclare_eq, Bool.false_and]

theorem declaresVersion_eq (h : p.IsComment line) : p.declaresVersion line = false := by
  rw [declaresVersion, h.mayDeclare_eq, Bool.false_and]

theorem isPhysical (h : p.IsComment line) : Line.IsPhysical ⟨line, .lineFeed⟩ :=
  ⟨h.lineFeed_notMem, fun _ => h.noReturn, by simp⟩

end Profile.IsComment

/-! ### The passes -/

/-- Reading passes over a logical line that declares nothing. -/
theorem Scan.run_insert (m : Markers) (s : Scan) (gs gs' : List Group) (l : Line) :
    run m s (gs ++ .other l :: gs') = run m s (gs ++ gs') := by
  simp [run, Group.declares]

namespace Stamping

variable {m : Markers} {o : StampOptions}

/-- Stamping goes through logical lines in two parts as it goes through all of them. -/
theorem stampGroups_append : ∀ (s : State) (gs gs' : List Group),
    stampGroups m o s (gs ++ gs') = (stampGroups m o s gs).bind fun front =>
      (stampGroups m o front.2 gs').map fun back => (front.1 ++ back.1, back.2)
  | s, [], gs' => by
    cases h : stampGroups m o s gs' <;> simp [stampGroups, h]
  | s, g :: gs, gs' => by
    simp only [List.cons_append, stampGroups, stampGroups_append _ gs gs', Option.bind_eq_bind,
      Option.bind_assoc]
    congr 1
    funext out
    congr 1
    funext rest
    cases h : stampGroups m o rest.2 gs' <;> simp [h]

theorem stampGroups_cons_other (s : State) (l : Line) (gs : List Group) :
    stampGroups m o s (.other l :: gs) =
      (stampGroups m o s gs).map fun rest => (l :: rest.1, rest.2) := by
  rw [stampGroups]
  simp only [stampGroup, Option.bind_eq_bind, Option.bind_some]
  cases stampGroups m o s gs <;> rfl

theorem endings_stampGroup {g : Group} {s s' : State} {out : List Line}
    (h : stampGroup m o s g = some (out, s')) :
    out.map Line.ending = g.lines.map Line.ending := by
  cases g with
  | other l =>
    obtain ⟨rfl, -⟩ := Prod.mk.inj (Option.some.inj h)
    rfl
  | single l | pair a b =>
    obtain ⟨stamped, -, hout⟩ := Option.map_eq_some_iff.1 h
    obtain ⟨rfl, -⟩ := Prod.mk.inj hout
    rfl

/-- Stamping writes a line for each line, and ends it as it was ended. -/
theorem endings_stampGroups {gs : List Group} {s s' : State} {lines : List Line}
    (h : stampGroups m o s gs = some (lines, s')) :
    lines.map Line.ending = (gs.flatMap Group.lines).map Line.ending := by
  induction gs generalizing s lines with
  | nil =>
    obtain ⟨rfl, -⟩ := Prod.mk.inj (Option.some.inj h)
    rfl
  | cons g gs ih =>
    rw [stampGroups] at h
    obtain ⟨⟨out, s₁⟩, hg, h⟩ := Option.bind_eq_some_iff.1 h
    obtain ⟨⟨rest, s₂⟩, hgs, h⟩ := Option.bind_eq_some_iff.1 h
    obtain ⟨rfl, rfl⟩ := Prod.mk.inj (Option.some.inj h)
    rw [List.map_append, List.flatMap_cons, List.map_append, endings_stampGroup hg, ih hgs]

end Stamping

open Stamping

/-- What a stamping writes, line by line. -/
def Profile.stampedLines? (p : Profile) (o : StampOptions) (source : Source) : Option (List Line) :=
  (stampGroups p.markers o {} (source.strict.groups p.declaresVersion p.joinsNextLine)).map Prod.fst

/-- A stamped file `r`, and the file `r'` that has a comment line besides; `front` and `back` are
the lines of `r` before its place and behind it. -/
structure Stamped.Commented (comment : Text) (front back : List Line) (r r' : Stamped) : Prop where
  content_eq : r.content = Line.join front ++ Line.join back
  commented : r'.content = Line.join front ++ (comment ++ '\n' :: Line.join back)
  version_eq : r'.version = r.version
  isSemantic_eq : r'.isSemantic = r.isSemantic
  next_eq : r'.next = r.next
  path_eq : r'.path = r.path

/-- Whether a declaration that begins before the place goes on behind it. -/
def Profile.awaitsLine (p : Profile) (opens : Text → Bool) (before : Bytes) : Bool :=
  p.joinsNextLine && Group.awaitsLine opens (Source.lossy ⟨before, none⟩).lines

section Place

variable {p : Profile} {before after : Bytes} {comment : Text}

/-! #### The lines of a file with a comment line -/

theorem Source.lossy_append (hbefore : PhysicalLine.Terminated before) :
    lossy ⟨before ++ after, none⟩ =
      ⟨(lossy ⟨before, none⟩).lines ++ (lossy ⟨after, none⟩).lines, none⟩ := by
  have hsplit := PhysicalLine.split_append_of_terminated hbefore after
  simp only [lossy, lines, hsplit, List.map_append]
  rfl

theorem Source.lossy_insert (hc : p.IsComment comment) (hbefore : PhysicalLine.Terminated before) :
    lossy ⟨before ++ (Utf8.encode (comment ++ ['\n']) ++ after), none⟩ =
      ⟨(lossy ⟨before, none⟩).lines ++
        ⟨comment, .lineFeed⟩ :: (lossy ⟨after, none⟩).lines, none⟩ := by
  have hsplit := PhysicalLine.split_insert hbefore hc.isPhysical rfl after
  rw [Line.whole, Ending.text] at hsplit
  simp only [lossy, lines, hsplit, List.map_append, List.map_cons, Line.encoded,
    Utf8.decodeLossy_encode]
  rfl

/-- With the comment line a text is a text. -/
theorem isText_insert (hc : p.IsComment comment) (hbefore : PhysicalLine.Terminated before)
    (h : Utf8.IsText (before ++ after)) :
    Utf8.IsText (before ++ (Utf8.encode (comment ++ ['\n']) ++ after)) := by
  obtain ⟨content, hcontent⟩ := h
  have hold := Line.split_encode content
  rw [hcontent, PhysicalLine.split_append_of_terminated hbefore] at hold
  obtain ⟨front, back, -, hfront, hback⟩ := List.map_eq_append_iff.1 hold.symm
  have hsplit := PhysicalLine.split_insert hbefore hc.isPhysical rfl after
  rw [← hfront, ← hback] at hsplit
  have hlines : PhysicalLine.split (before ++ (Utf8.encode (comment ++ ['\n']) ++ after)) =
      (front ++ ⟨comment, .lineFeed⟩ :: back).map Line.encoded := by
    rw [List.map_append, List.map_cons]
    exact hsplit
  exact Source.isText_of_split hlines

variable {opens : Text → Bool}

theorem Profile.awaitsLine_of_joins (hplace : p.awaitsLine opens before = false)
    (hjoins : p.joinsNextLine = true) :
    Group.awaitsLine opens (Source.lossy ⟨before, none⟩).lines = false := by
  rwa [awaitsLine, hjoins, Bool.true_and] at hplace

theorem Profile.groups_append (hbefore : PhysicalLine.Terminated before)
    (hplace : p.awaitsLine opens before = false) :
    (Source.lossy ⟨before ++ after, none⟩).groups opens p.joinsNextLine =
      (Source.lossy ⟨before, none⟩).groups opens p.joinsNextLine ++
        (Source.lossy ⟨after, none⟩).groups opens p.joinsNextLine := by
  rw [Source.lossy_append hbefore]
  exact Group.sort_append (awaitsLine_of_joins hplace) _

theorem Profile.groups_insert (hc : p.IsComment comment) (hopens : opens comment = false)
    (hbefore : PhysicalLine.Terminated before) (hplace : p.awaitsLine opens before = false) :
    (Source.lossy ⟨before ++ (Utf8.encode (comment ++ ['\n']) ++ after), none⟩).groups opens
        p.joinsNextLine =
      (Source.lossy ⟨before, none⟩).groups opens p.joinsNextLine ++
        .other ⟨comment, .lineFeed⟩ ::
          (Source.lossy ⟨after, none⟩).groups opens p.joinsNextLine := by
  rw [Source.lossy_insert hc hbefore]
  exact Group.sort_insert (awaitsLine_of_joins hplace) hopens _

/-- **Reading passes over a comment line.** -/
theorem Record.scan_insert (hc : p.IsComment comment) (hbefore : PhysicalLine.Terminated before)
    (hplace : p.awaitsLine p.declaresAttribute before = false) (failure : Option Text) :
    Record.scan p ⟨before ++ (Utf8.encode (comment ++ ['\n']) ++ after), failure⟩ =
      Record.scan p ⟨before ++ after, failure⟩ := by
  cases failure with
  | some f => rw [scan_of_failure p rfl, scan_of_failure p rfl]
  | none =>
    have hscan (bytes : Bytes) : Record.scan p ⟨bytes, none⟩ =
        .ok (Scan.run p.markers {} ((Source.lossy ⟨bytes, none⟩).groups p.declaresAttribute
          p.joinsNextLine)).record := rfl
    rw [hscan, hscan, Profile.groups_insert hc hc.declaresAttribute_eq hbefore hplace,
      Profile.groups_append hbefore hplace, Scan.run_insert]

/-- **Stamping passes over a comment line.** -/
theorem stampSource_insert (hc : p.IsComment comment) (hbefore : PhysicalLine.Terminated before)
    (hplace : p.awaitsLine p.declaresVersion before = false) {o : StampOptions} {path : Path}
    {failure : Option Text} {r : Stamped}
    (h : stampSource p o path ⟨before ++ after, failure⟩ = .ok r) :
    ∃ r' front back,
      stampSource p o path ⟨before ++ (Utf8.encode (comment ++ ['\n']) ++ after), failure⟩ =
        .ok r' ∧
      p.stampedLines? o ⟨before ++ after, failure⟩ = some (front ++ back) ∧
      front.map Line.ending = (PhysicalLine.split before).map PhysicalLine.ending ∧
      back.map Line.ending = (PhysicalLine.split after).map PhysicalLine.ending ∧
      Stamped.Commented comment front back r r' := by
  obtain ⟨content, hcontent⟩ := Source.exists_eq_ofText h
  obtain ⟨hbytes, rfl⟩ := Source.mk.inj hcontent
  have htext : Utf8.IsText (before ++ after) := ⟨content, hbytes.symm⟩
  have hread := (Source.readsAsWhole _).alike htext
  have htext' := isText_insert hc hbefore htext
  have hread' := (Source.readsAsWhole _).alike htext'
  obtain ⟨lines, state, hrun, -, hversion, hjoin, hsemantic, hnext, hpath⟩ :=
    stampSource_eq_ok_iff.1 h
  have hlines : p.stampedLines? o ⟨before ++ after, none⟩ = some lines := by
    rw [Profile.stampedLines?, hrun]
    rfl
  rw [hread, Profile.groups_append hbefore hplace, stampGroups_append] at hrun
  obtain ⟨⟨front, s⟩, hfront, hrun⟩ := Option.bind_eq_some_iff.1 hrun
  obtain ⟨⟨back, s'⟩, hback, hrun⟩ := Option.map_eq_some_iff.1 hrun
  obtain ⟨rfl, rfl⟩ := Prod.mk.inj hrun
  have hrun' : stampGroups p.markers o {}
      ((Source.strict ⟨before ++ (Utf8.encode (comment ++ ['\n']) ++ after), none⟩).groups
        p.declaresVersion p.joinsNextLine) =
      some (front ++ ⟨comment, .lineFeed⟩ :: back, s') := by
    rw [hread', Profile.groups_insert hc hc.declaresVersion_eq hbefore hplace, stampGroups_append,
      hfront]
    simp only [Option.bind_some, stampGroups_cons_other, hback, Option.map_some]
  have hendings {bytes : Bytes} {s₁ s₂ : State} {out : List Line}
      (hout : stampGroups p.markers o s₁ ((Source.lossy ⟨bytes, none⟩).groups p.declaresVersion
        p.joinsNextLine) = some (out, s₂)) :
      out.map Line.ending = (PhysicalLine.split bytes).map PhysicalLine.ending := by
    have hlossy : ((Source.lossy ⟨bytes, none⟩).groups p.declaresVersion p.joinsNextLine).flatMap
        Group.lines = (Source.lossy ⟨bytes, none⟩).lines := Group.lines_sort _ _ _
    rw [endings_stampGroups hout, hlossy, Source.lossy, List.map_map]
    rfl
  refine ⟨{ r with content := Line.join (front ++ ⟨comment, .lineFeed⟩ :: back) }, front, back,
    stampSource_eq_ok_iff.2 ⟨_, s', hrun', ?_, hversion, rfl, hsemantic, hnext, hpath⟩, hlines,
    hendings hfront, hendings hback, ?_, ?_, rfl, rfl, rfl, rfl⟩
  · exact (Source.readsAsWhole _).accepted.2 htext'
  · rw [hjoin, Line.join_append]
  · simp [Line.whole, Ending.text]

end Place

/-- **Comment lines never matter.** The file may hold any bytes, and the comment any text; where a
line begins and no declaration awaits its second line, what is read is the record that was read
without the comment, and what is stamped is the file that was stamped without it, with the comment
line at its place. -/
theorem comment_passedOver (l : Language) {before : Bytes} (after : Bytes) (failure : Option Text)
    {comment : Text} (hc : l.profile.IsComment comment)
    (hbefore : PhysicalLine.Terminated before) :
    (l.profile.awaitsLine l.profile.declaresAttribute before = false →
      Record.scan l.profile ⟨before ++ (Utf8.encode (comment ++ ['\n']) ++ after), failure⟩ =
        Record.scan l.profile ⟨before ++ after, failure⟩) ∧
    (l.profile.awaitsLine l.profile.declaresVersion before = false → ∀ o path r,
      stampSource l.profile o path ⟨before ++ after, failure⟩ = .ok r →
      ∃ r' front back,
        stampSource l.profile o path
            ⟨before ++ (Utf8.encode (comment ++ ['\n']) ++ after), failure⟩ = .ok r' ∧
        l.profile.stampedLines? o ⟨before ++ after, failure⟩ = some (front ++ back) ∧
        front.map Line.ending = (PhysicalLine.split before).map PhysicalLine.ending ∧
        back.map Line.ending = (PhysicalLine.split after).map PhysicalLine.ending ∧
        Stamped.Commented comment front back r r') :=
  ⟨fun hplace => Record.scan_insert hc hbefore hplace failure,
    fun hplace _ _ _ h => stampSource_insert hc hbefore hplace h⟩

/-- A version over two lines, the second of which names an attribute. -/
def pairNamingTitle : Bytes :=
  Utf8.encode ("CUSTOM-ATTRIBUTE CA-ASSEMBLYVERSION\n".toList ++
    "\"1.*\" CUSTOM-ATTRIBUTE CA-ASSEMBLYTITLE\n")

/-- A semantic version that has been put out of use. -/
def retiredVersion : Text :=
  "  *> CUSTOM-ATTRIBUTE CA-ASSEMBLYINFORMATIONALVERSION \"9.9\""

/-- Behind a pair whose second line names an attribute, a version put out of use is passed over. -/
theorem comment_passedOver_retired :
    Record.scan Language.cobol.profile
        ⟨pairNamingTitle ++ (Utf8.encode (retiredVersion ++ ['\n']) ++ []), none⟩ =
      Record.scan Language.cobol.profile ⟨pairNamingTitle ++ [], none⟩ ∧
    ∃ r r' front back,
      stampSource Language.cobol.profile { versionPart := some ['7'], now := ⟨2019, 1, 1, 12, 0⟩ }
        "info" ⟨pairNamingTitle ++ [], none⟩ = .ok r ∧
      stampSource Language.cobol.profile { versionPart := some ['7'], now := ⟨2019, 1, 1, 12, 0⟩ }
        "info" ⟨pairNamingTitle ++ (Utf8.encode (retiredVersion ++ ['\n']) ++ []), none⟩ = .ok r' ∧
      front.length = 2 ∧ r.version = "1.7.0.0".toList ∧
      Stamped.Commented retiredVersion front back r r' := by
  have hc : Language.cobol.profile.IsComment retiredVersion := ⟨by decide, by decide, by decide⟩
  have hbefore : PhysicalLine.Terminated pairNamingTitle := by
    have hlast : pairNamingTitle.getLast? = some 0x0A := by decide +kernel
    intro b hb
    exact (Option.some.inj (hlast.symm.trans hb)).symm
  have h : stampSource Language.cobol.profile
      { versionPart := some ['7'], now := ⟨2019, 1, 1, 12, 0⟩ } "info"
      ⟨pairNamingTitle ++ [], none⟩ = .ok {
        content := "CUSTOM-ATTRIBUTE CA-ASSEMBLYVERSION\n".toList ++
          "\"1.7.0.0\" CUSTOM-ATTRIBUTE CA-ASSEMBLYTITLE\n"
        version := "1.7.0.0"
        isSemantic := false
        next := ⟨"1.7.0.0", "1.7.0.0-d"⟩
        path := "info" } := by
    decide +kernel
  obtain ⟨hscan, hstamp⟩ := comment_passedOver .cobol [] none hc hbefore
  obtain ⟨r', front, back, hr', -, hfront, -, hcommented⟩ := hstamp (by decide +kernel) _ _ _ h
  have hlength : front.length = 2 := by
    have hlines : (PhysicalLine.split pairNamingTitle).length = 2 := by decide +kernel
    simpa [hlines] using congrArg List.length hfront
  exact ⟨hscan (by decide +kernel), _, r', front, back, h, hr', hlength, rfl, hcommented⟩

end Nameplate
