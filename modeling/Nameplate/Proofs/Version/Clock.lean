/-
# The clock

The time at which a file is stamped is seen in one place only: behind the first
mark of a version under development. What a version is called without what
follows its first hyphen does not depend on it (`coreVersion_development`), and
that is all the next versions are made of. So two stampings of one file at two
times, of whatever years, stay abreast (`Stamping.Abreast`): they look ahead to
the same versions, or fail for the same reason (`stampSource_anytime`).

A release and a new development put no time into the file at all
(`StampOptions.Undated`), and come to the same file at any time.

Key definitions: `StampOptions.Undated`, `Stamping.State.outlook`,
`Stamping.Abreast`.
Key theorems: `Stamping.abreast_stampGroups`, `stampSource_of_undated`,
`stampSource_anytime`.
-/
import Nameplate.Proofs.Text.Contains
import Nameplate.Proofs.Version.Numbered

namespace Nameplate

open Template

/-- Options under which no line is given the time: those of a release, and those of a new
development. -/
def StampOptions.Undated (o : StampOptions) : Prop :=
  o.isRelease = true ∨ o.newDevelopment.isSome = true

/-! ### What a stamp does not change -/

namespace Template

theorem count_stampMark {c : Char} {stamp : Text} (hstamp : c ∉ stamp) (v : Text) :
    (stampMark stamp v).count c = v.count c := by
  induction v using stampMark.induct with
  | case1 rest =>
    simp only [stampMark, List.count_cons, List.count_append,
      List.count_eq_zero_of_not_mem hstamp, Nat.zero_add]
  | case2 x rest hmark ih =>
    rw [stampMark, List.count_cons, List.count_cons, ih]
    exact hmark
  | case3 => rfl

end Template

/-- A stamp comes after the first hyphen, whatever it is. -/
theorem coreVersion_stampMark (stamp v : Text) :
    coreVersion (stampMark stamp v) = coreVersion v := by
  induction v using stampMark.induct with
  | case1 rest => rw [stampMark, coreVersion_cons, if_pos rfl, coreVersion_cons, if_pos rfl]
  | case2 c rest hmark ih =>
    rw [stampMark, coreVersion_cons, coreVersion_cons, ih]
    exact hmark
  | case3 => rfl

/-- A line without a quoted value gets none by being stamped. -/
theorem Quoted.split?_development {line : Text} (h : split? line = none) (now : Moment) :
    split? (development now line) = none := by
  rw [split?_eq_none_iff] at h
  have hzero : (zero line).count '"' = line.count '"' :=
    Text.count_replace_of_notMem (by decide) (by decide) line
  have hstamp : '"' ∉ now.stamp := now.isStamp_stamp.notMem (by decide) (by decide)
  rwa [development, Text.mapQuoted, (split?_eq_none_iff line).2 h, split?_eq_none_iff,
    count_stampMark hstamp, hzero]

/-- **The version without what follows its first hyphen is the same at any time.** -/
theorem coreVersion_development (now : Moment) (line : Text) :
    coreVersion (Text.quoted (development now line)) =
      coreVersion (zero (Text.quoted line)) := by
  cases h : Quoted.split? line with
  | none =>
    have hstamped := Quoted.split?_development h now
    simp only [Text.quoted, h, hstamped]
    rfl
  | some q =>
    rw [development, Text.quoted_mapQuoted h, coreVersion_stampMark]
    simp only [Text.quoted, h]

/-! ### Two stampings of one file -/

namespace Stamping

variable {m : Markers} {o : StampOptions} (now now' : Moment)

/-- What a state lets one see of the versions that follow. -/
def State.outlook (s : State) : Bool × Option Text := (s.semantic, s.version.map coreVersion)

/-- Two passes abreast: both have failed, or both go on and look ahead to the same. -/
inductive Abreast {α : Type} : Option (α × State) → Option (α × State) → Prop
  | failed : Abreast none none
  | going {x y : α} {s t : State} : s.outlook = t.outlook → Abreast (some (x, s)) (some (y, t))

theorem State.outlook_advance {s t : State} (h : s.outlook = t.outlook) (line : Text) {x y : Text}
    (hxy : coreVersion (Text.quoted x) = coreVersion (Text.quoted y)) :
    (s.advance m line x).outlook = (t.advance m line y).outlook := by
  obtain ⟨hsemantic, hversion⟩ := Prod.mk.inj h
  unfold outlook advance
  rw [hsemantic]
  cases m.isFileVersion line with
  | true => simp [hversion]
  | false => simp [hxy]

/-- A rule fails at any time or at none, and the version it leaves is the same up to its hyphen. -/
theorem apply_anytime (o : StampOptions) (rule : Rule) (line : Text) :
    rule.apply { o with now := now } line = none ∧ rule.apply { o with now := now' } line = none ∨
      ∃ x y, rule.apply { o with now := now } line = some x ∧
        rule.apply { o with now := now' } line = some y ∧
        coreVersion (Text.quoted x) = coreVersion (Text.quoted y) := by
  cases rule with
  | newSemantic v | newNumeric v | release => exact Or.inr ⟨_, _, rfl, rfl, rfl⟩
  | numeric =>
    cases hx : Template.numeric o.versionPart line with
    | none => exact Or.inl ⟨hx, hx⟩
    | some x => exact Or.inr ⟨x, x, hx, hx, rfl⟩
  | development =>
    refine Or.inr ⟨_, _, rfl, rfl, ?_⟩
    rw [coreVersion_development, coreVersion_development]

theorem stampText_at (s : State) (line : Text) :
    stampText m { o with now := now } s line =
      ((ruleFor m o (s.semantic || Text.contains m.semanticVersion line) line).apply
        { o with now := now } line).map fun stamped => (stamped, s.advance m line stamped) := rfl

theorem abreast_stampText {s t : State} (h : s.outlook = t.outlook) (line : Text) :
    Abreast (stampText m { o with now := now } s line)
      (stampText m { o with now := now' } t line) := by
  have hsemantic : s.semantic = t.semantic := congrArg Prod.fst h
  rw [stampText_at, stampText_at, hsemantic]
  rcases apply_anytime now now' o
    (ruleFor m o (t.semantic || Text.contains m.semanticVersion line) line) line
    with ⟨hx, hy⟩ | ⟨x, y, hx, hy, hxy⟩
  · rw [hx, hy]
    exact .failed
  · rw [hx, hy]
    exact .going (State.outlook_advance h line hxy)

/-- What goes on alike after two steps abreast stays abreast. -/
theorem Abreast.bind {α β : Type} {a b : Option (α × State)} (h : Abreast a b)
    {f g : α × State → Option (β × State)}
    (hfg : ∀ x y s t, s.outlook = t.outlook → Abreast (f (x, s)) (g (y, t))) :
    Abreast (a.bind f) (b.bind g) := by
  cases h with
  | failed => exact .failed
  | going hst => exact hfg _ _ _ _ hst

theorem abreast_stampGroup {s t : State} (h : s.outlook = t.outlook) (g : Group) :
    Abreast (stampGroup m { o with now := now } s g) (stampGroup m { o with now := now' } t g) := by
  cases g with
  | other l => exact .going h
  | single l =>
    rw [stampGroup, stampGroup, Option.map_eq_bind, Option.map_eq_bind]
    exact (abreast_stampText now now' h l.text).bind fun _ _ _ _ => .going
  | pair a b =>
    rw [stampGroup, stampGroup, Option.map_eq_bind, Option.map_eq_bind]
    exact (abreast_stampText now now' h (a.text ++ b.text)).bind fun _ _ _ _ => .going

/-- **Two stampings of one file stay abreast**, whatever their times. -/
theorem abreast_stampGroups : ∀ (gs : List Group) {s t : State}, s.outlook = t.outlook →
    Abreast (stampGroups m { o with now := now } s gs) (stampGroups m { o with now := now' } t gs)
  | [], _, _, h => .going h
  | g :: gs, _, _, h =>
    (abreast_stampGroup now now' h g).bind fun _ _ _ _ h₁ =>
      (abreast_stampGroups gs h₁).bind fun _ _ _ _ => .going

/-! ### Stampings that put no time into a file -/

/-- Without a time to be put in, every step is the same at any time. -/
theorem stampText_of_undated (ho : o.Undated) (s : State) (line : Text) :
    stampText m { o with now := now } s line = stampText m { o with now := now' } s line := by
  have hselects := selects_ruleFor m o (s.semantic || Text.contains m.semanticVersion line) line
  rw [stampText_at, stampText_at]
  cases hr : ruleFor m o (s.semantic || Text.contains m.semanticVersion line) line with
  | development =>
    rw [hr] at hselects
    cases hselects with
    | development hnew _ _ hrelease => simp [StampOptions.Undated, hnew, hrelease] at ho
  | newSemantic v | newNumeric v | numeric | release => rfl

theorem stampGroup_congr {o o' : StampOptions}
    (h : ∀ (s : State) (line : Text), stampText m o s line = stampText m o' s line) (s : State)
    (g : Group) : stampGroup m o s g = stampGroup m o' s g := by
  cases g with
  | other l => rfl
  | single l => rw [stampGroup, stampGroup, h]
  | pair a b => rw [stampGroup, stampGroup, h]

/-- **Options that agree on every declaration agree on a file.** -/
theorem stampGroups_congr {o o' : StampOptions}
    (h : ∀ (s : State) (line : Text), stampText m o s line = stampText m o' s line) :
    ∀ (s : State) (gs : List Group), stampGroups m o s gs = stampGroups m o' s gs
  | _, [] => rfl
  | s, g :: gs => by
    rw [stampGroups, stampGroups, stampGroup_congr h]
    simp only [stampGroups_congr h]

end Stamping

open Stamping

/-- **A release and a new development come to the same file at any time.** -/
theorem stampSource_of_undated (p : Profile) {o : StampOptions} (ho : o.Undated)
    (now now' : Moment) (path : Path) (source : Source) :
    stampSource p { o with now := now } path source =
      stampSource p { o with now := now' } path source := by
  unfold stampSource
  simp only [stampGroups_congr (stampText_of_undated now now' ho)]

theorem stampSource_abreast (p : Profile) (o : StampOptions) (now now' : Moment) (path : Path)
    (source : Source) :
    (∃ failure, stampSource p { o with now := now } path source = .error failure ∧
        stampSource p { o with now := now' } path source = .error failure) ∨
      ∃ r r', stampSource p { o with now := now } path source = .ok r ∧
        stampSource p { o with now := now' } path source = .ok r' ∧
        r'.isSemantic = r.isSemantic ∧ r'.next = r.next ∧ r'.path = r.path := by
  have hrun := abreast_stampGroups (m := p.markers) (o := o) now now'
    (source.strict.groups p.declaresVersion p.joinsNextLine)
    (rfl : ({} : State).outlook = ({} : State).outlook)
  dsimp only [stampSource]
  generalize stampGroups p.markers { o with now := now } {}
    (source.strict.groups p.declaresVersion p.joinsNextLine) = a at hrun ⊢
  generalize stampGroups p.markers { o with now := now' } {}
    (source.strict.groups p.declaresVersion p.joinsNextLine) = b at hrun ⊢
  cases hrun with
  | failed => exact Or.inl ⟨_, rfl, rfl⟩
  | @going lines lines' s t hst =>
    obtain ⟨semantic, version⟩ := s
    obtain ⟨semantic', version'⟩ := t
    obtain ⟨hsemantic, hversion⟩ := Prod.mk.inj hst
    cases source.strict.failure with
    | some fault => exact Or.inl ⟨_, rfl, rfl⟩
    | none =>
      cases version with
      | none =>
        obtain rfl : version' = none := Option.map_eq_none_iff.1 hversion.symm
        exact Or.inl ⟨_, rfl, rfl⟩
      | some v =>
        obtain ⟨w, rfl, hw⟩ := Option.map_eq_some_iff.1 hversion.symm
        exact Or.inr ⟨_, _, rfl, rfl, hsemantic.symm, upcoming_congr hw o.isRelease, rfl⟩

/-- **The clock never reaches the next versions.** At any two times a file is stamped, or is refused
for the same reason. What is reported of the versions that follow is the same; under undated
options, so is all of the outcome. -/
theorem stampSource_anytime (l : Language) (o : StampOptions) (now now' : Moment) (path : Path)
    (source : Source) :
    (∃ failure, stampSource l.profile { o with now := now } path source = .error failure ∧
        stampSource l.profile { o with now := now' } path source = .error failure) ∨
      ∃ r r', stampSource l.profile { o with now := now } path source = .ok r ∧
        stampSource l.profile { o with now := now' } path source = .ok r' ∧
        r'.isSemantic = r.isSemantic ∧ r'.next = r.next ∧ r'.path = r.path ∧
        (o.Undated → r' = r) := by
  rcases stampSource_abreast l.profile o now now' path source with
    hfailed | ⟨r, r', hr, hr', hsemantic, hnext, hpath⟩
  · exact Or.inl hfailed
  · refine Or.inr ⟨r, r', hr, hr', hsemantic, hnext, hpath, fun ho => ?_⟩
    have hsame := stampSource_of_undated l.profile ho now now' path source
    rw [hr, hr'] at hsame
    exact (Except.ok.inj hsame).symm

/-- A version with two marks. -/
def markedTwice : Text := "DbInformationalVersion = \"1.0.*-d-d\"\n"

/-- Two stamps with signs, that of a year before the first and that of a year of five digits: the
files differ, and what follows is the same. Their releases are the same file. -/
theorem stampSource_anytime_signed :
    (∃ r r' : Stamped,
      stampSource Language.tsql.profile { now := ⟨-7, 1, 1, 12, 0⟩ } "info"
        (Source.ofText markedTwice) = .ok r ∧
      stampSource Language.tsql.profile { now := ⟨12019, 1, 1, 12, 0⟩ } "info"
        (Source.ofText markedTwice) = .ok r' ∧
      r.content = "DbInformationalVersion = \"1.0.0-d-000701011200-d\"\n".toList ∧
      r'.content = "DbInformationalVersion = \"1.0.0-d+1201901011200-d\"\n".toList ∧
      r'.isSemantic = r.isSemantic ∧ r'.next = r.next) ∧
    ∃ r : Stamped,
      stampSource Language.tsql.profile { isRelease := true, now := ⟨-7, 1, 1, 12, 0⟩ } "info"
        (Source.ofText markedTwice) = .ok r ∧
      stampSource Language.tsql.profile { isRelease := true, now := ⟨12019, 1, 1, 12, 0⟩ } "info"
        (Source.ofText markedTwice) = .ok r := by
  constructor
  · have h : (stampSource Language.tsql.profile { now := ⟨-7, 1, 1, 12, 0⟩ } "info"
        (Source.ofText markedTwice)).map Stamped.content =
        .ok "DbInformationalVersion = \"1.0.0-d-000701011200-d\"\n".toList := by
      decide +kernel
    have h' : (stampSource Language.tsql.profile { now := ⟨12019, 1, 1, 12, 0⟩ } "info"
        (Source.ofText markedTwice)).map Stamped.content =
        .ok "DbInformationalVersion = \"1.0.0-d+1201901011200-d\"\n".toList := by
      decide +kernel
    rcases stampSource_anytime .tsql { now := ⟨2019, 1, 1, 12, 0⟩ } ⟨-7, 1, 1, 12, 0⟩
      ⟨12019, 1, 1, 12, 0⟩ "info" (Source.ofText markedTwice) with
      ⟨failure, hf, -⟩ | ⟨r, r', hr, hr', hsemantic, hnext, -, -⟩
    · rw [hf] at h
      exact absurd h (by simp [Except.map])
    · rw [hr] at h
      rw [hr'] at h'
      exact ⟨r, r', hr, hr', Except.ok.inj h, Except.ok.inj h', hsemantic, hnext⟩
  · have h : ∃ r, stampSource Language.tsql.profile
        { isRelease := true, now := ⟨-7, 1, 1, 12, 0⟩ } "info" (Source.ofText markedTwice) =
        .ok r := ⟨⟨"DbInformationalVersion = \"1.0.0\"\n", "1.0.0", true, ⟨"1.1.0", "1.1.0-d"⟩,
          "info"⟩, by decide +kernel⟩
    rcases stampSource_anytime .tsql { isRelease := true, now := ⟨2019, 1, 1, 12, 0⟩ }
      ⟨-7, 1, 1, 12, 0⟩ ⟨12019, 1, 1, 12, 0⟩ "info" (Source.ofText markedTwice) with
      ⟨failure, hf, -⟩ | ⟨r, r', hr, hr', -, -, -, hsame⟩
    · rw [hf] at h
      exact absurd h (by simp)
    · obtain rfl := hsame (Or.inl rfl)
      exact ⟨r', hr, hr'⟩

end Nameplate
