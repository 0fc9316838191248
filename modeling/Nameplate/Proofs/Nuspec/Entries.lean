/-
# The entries that name files and dependencies

An entry is divided at its first `=` or, without one, is whole. A dependency has to be
divided, a file need not be; both parsers refuse a blank side and trim the sides they
keep (`Entry.Reads`). From this alone it follows what is named: the pairs whose first
part has no `=` and whose parts are neither empty nor to be trimmed, and every such pair
by the entry that joins it (`Entry.NormalForms`).

Settings are checked by a rule of their own, which asks for an id and a version that are
not blank. It never refuses a dependency that came from an entry
(`Dependency.isComplete_of_parse`).

Key definitions: `Entry.Reads`, `Entry.IsNormal`, `Entry.NormalForms`.
Key theorems: `Dependency.reads_parse`, `FileEntry.reads_parse`,
`Entry.Reads.normalForms`, `Settings.check_eq_ok_iff`, `Entry.normalForms_parse`.
-/
import Nameplate.Proofs.Text.Blank
import Nameplate.Settings

namespace Nameplate
namespace Entry

/-! ### Entries and the pairs they name -/

/-- An entry with something before its first `=` and something behind it. -/
def IsDivided (entry : Text) : Prop :=
  ∃ left right : Text, entry = left ++ '=' :: right ∧ '=' ∉ left ∧ Text.isBlank left = false ∧
    Text.isBlank right = false

/-- An entry without `=` that says something. -/
def IsWhole (entry : Text) : Prop := '=' ∉ entry ∧ Text.isBlank entry = false

/-- A pair that stands in an entry just as it is. -/
structure IsNormal (left right : Text) : Prop where
  undivided : '=' ∉ left
  left_ne : left ≠ []
  right_ne : right ≠ []
  left_trimmed : Text.trim left = left
  right_trimmed : Text.trim right = right

/-- A parser of entries that names a pair by `mk`. What a whole entry has for its second part is
`absent`; with none there, it is refused. -/
structure Reads {α : Type} (parse : Text → Except Text α) (mk : Text → Text → α)
    (absent : Option Text) : Prop where
  divided : ∀ {left right : Text} {e : α}, '=' ∉ left →
    (parse (left ++ '=' :: right) = .ok e ↔
      Text.isBlank left = false ∧ Text.isBlank right = false ∧
        e = mk (Text.trim left) (Text.trim right))
  whole : ∀ {entry : Text} {e : α}, '=' ∉ entry →
    (parse entry = .ok e ↔
      Text.isBlank entry = false ∧ ∃ right, absent = some right ∧ e = mk (Text.trim entry) right)

/-- A parser that accepts the entries of one kind and names the normal pairs by them. -/
structure NormalForms {α : Type} (parse : Text → Except Text α) (mk : Text → Text → α)
    (accepted : Text → Prop) : Prop where
  accepts_iff : ∀ entry, (∃ e, parse entry = .ok e) ↔ accepted entry
  /-- A divided entry names its two sides without the blanks around them. -/
  divided : ∀ left right, '=' ∉ left → ∀ e, parse (left ++ '=' :: right) = .ok e →
    e = mk (Text.trim left) (Text.trim right)
  normal : ∀ entry e, parse entry = .ok e → ∃ left right, e = mk left right ∧ IsNormal left right
  parse_join_iff : ∀ left right,
    parse (left ++ '=' :: right) = .ok (mk left right) ↔ IsNormal left right

theorem IsNormal.notBlank {left right : Text} (h : IsNormal left right) :
    Text.isBlank left = false ∧ Text.isBlank right = false := by
  rw [← Text.trim_ne_nil_iff, ← Text.trim_ne_nil_iff, h.left_trimmed, h.right_trimmed]
  exact ⟨h.left_ne, h.right_ne⟩

/-- Two sides that are not blank are a normal pair once they are trimmed. -/
theorem isNormal_trim {left right : Text} (hfirst : '=' ∉ left)
    (hleft : Text.isBlank left = false) (hright : Text.isBlank right = false) :
    IsNormal (Text.trim left) (Text.trim right) where
  undivided h := hfirst (Text.trim_subset left h)
  left_ne := (Text.trim_ne_nil_iff left).2 hleft
  right_ne := (Text.trim_ne_nil_iff right).2 hright
  left_trimmed := Text.trim_trim left
  right_trimmed := Text.trim_trim right

/-- Every entry is divided at its first `=` or has none. -/
theorem exists_eq_append_or (entry : Text) :
    (∃ left right : Text, entry = left ++ '=' :: right ∧ '=' ∉ left) ∨ '=' ∉ entry := by
  by_cases hmem : '=' ∈ entry
  · obtain ⟨left, right, hentry, hfirst⟩ := List.eq_append_cons_of_mem hmem
    exact .inl ⟨left, right, hentry, hfirst⟩
  · exact .inr hmem

/-! ### What follows from how a parser reads -/

namespace Reads

variable {α : Type} {parse : Text → Except Text α} {mk : Text → Text → α} {absent : Option Text}

theorem accepts_iff (h : Reads parse mk absent) (entry : Text) :
    (∃ e, parse entry = .ok e) ↔ IsDivided entry ∨ absent.isSome ∧ IsWhole entry := by
  constructor
  · rintro ⟨e, he⟩
    rcases exists_eq_append_or entry with ⟨left, right, rfl, hfirst⟩ | hwhole
    · obtain ⟨hleft, hright, -⟩ := (h.divided hfirst).1 he
      exact .inl ⟨left, right, rfl, hfirst, hleft, hright⟩
    · obtain ⟨hblank, right, habsent, -⟩ := (h.whole hwhole).1 he
      exact .inr ⟨by rw [habsent, Option.isSome_some], hwhole, hblank⟩
  · rintro (⟨left, right, rfl, hfirst, hleft, hright⟩ | ⟨hsome, hwhole, hblank⟩)
    · exact ⟨_, (h.divided hfirst).2 ⟨hleft, hright, rfl⟩⟩
    · obtain ⟨right, habsent⟩ := Option.isSome_iff_exists.1 hsome
      exact ⟨_, (h.whole hwhole).2 ⟨hblank, right, habsent, rfl⟩⟩

/-- The pair of an accepted entry is normal, if the second part of a whole entry is one a normal
pair can have. -/
theorem normal (h : Reads parse mk absent)
    (habsent : ∀ right, absent = some right → right ≠ [] ∧ Text.trim right = right)
    {entry : Text} {e : α} (he : parse entry = .ok e) :
    ∃ left right, e = mk left right ∧ IsNormal left right := by
  rcases exists_eq_append_or entry with ⟨left, right, rfl, hfirst⟩ | hwhole
  · obtain ⟨hleft, hright, rfl⟩ := (h.divided hfirst).1 he
    exact ⟨_, _, rfl, isNormal_trim hfirst hleft hright⟩
  · obtain ⟨hblank, right, hright, rfl⟩ := (h.whole hwhole).1 he
    obtain ⟨hne, htrimmed⟩ := habsent right hright
    refine ⟨_, right, rfl, fun hmem => hwhole (Text.trim_subset entry hmem), ?_, hne,
      Text.trim_trim entry, htrimmed⟩
    exact (Text.trim_ne_nil_iff entry).2 hblank

/-- A normal pair is named by the entry that joins it. -/
theorem parse_join (h : Reads parse mk absent) {left right : Text} (hn : IsNormal left right) :
    parse (left ++ '=' :: right) = .ok (mk left right) := by
  refine (h.divided hn.undivided).2 ⟨hn.notBlank.1, hn.notBlank.2, ?_⟩
  rw [hn.left_trimmed, hn.right_trimmed]

/-- **A parser that reads entries names exactly the normal pairs.** -/
theorem normalForms (h : Reads parse mk absent)
    (habsent : ∀ right, absent = some right → right ≠ [] ∧ Text.trim right = right)
    (hmk : ∀ left right left' right', mk left right = mk left' right' →
      left = left' ∧ right = right') :
    NormalForms parse mk fun entry => IsDivided entry ∨ absent.isSome ∧ IsWhole entry where
  accepts_iff := h.accepts_iff
  divided _ _ hfirst _ he := ((h.divided hfirst).1 he).2.2
  normal _ _ he := h.normal habsent he
  parse_join_iff left right := by
    refine ⟨fun he => ?_, h.parse_join⟩
    obtain ⟨left', right', hpair, hn⟩ := h.normal habsent he
    obtain ⟨rfl, rfl⟩ := hmk _ _ _ _ hpair
    exact hn

end Reads
end Entry

/-! ### The two parsers -/

/-- A parser that refuses what it is guarded against accepts the rest. -/
theorem Entry.guarded_eq_ok_iff {α : Type} {refused : Prop} [Decidable refused] {message : Text}
    {e e' : α} :
    (if refused then Except.error message else .ok e') = .ok e ↔ ¬refused ∧ e = e' := by
  by_cases h : refused
  · simp [h]
  · simp [h, eq_comm]

theorem Dependency.reads_parse : Entry.Reads Dependency.parse Dependency.mk none where
  divided {left right d} hfirst := by
    rw [Dependency.parse, Text.splitAtFirst_append hfirst]
    refine Entry.guarded_eq_ok_iff.trans ?_
    rw [Bool.or_eq_true, not_or, Bool.not_eq_true, Bool.not_eq_true, and_assoc]
  whole {entry d} hwhole := by
    rw [Dependency.parse, (Text.splitAtFirst_eq_none_iff '=' entry).2 hwhole]
    simp

/-- Only the first `=` divides, and the blanks around the two sides do not count. -/
example : Dependency.parse " Orders = 1.0=beta " = .ok ⟨"Orders", "1.0=beta"⟩ := by decide

theorem FileEntry.reads_parse :
    Entry.Reads FileEntry.parse FileEntry.mk (some contentFolder) where
  divided {left right f} hfirst := by
    rw [FileEntry.parse, Text.splitAtFirst_append hfirst]
    refine Entry.guarded_eq_ok_iff.trans ?_
    rw [Text.trim_eq_nil_iff, Text.trim_eq_nil_iff, not_or, Bool.not_eq_true, Bool.not_eq_true,
      and_assoc]
  whole {entry f} hwhole := by
    have hfolder : contentFolder ≠ [] := by decide
    rw [FileEntry.parse, (Text.splitAtFirst_eq_none_iff '=' entry).2 hwhole]
    refine Entry.guarded_eq_ok_iff.trans ?_
    rw [Text.trim_eq_nil_iff, not_or, Bool.not_eq_true, and_assoc]
    simp [hfolder]

/-! ### The check of the settings -/

/-- A dependency that an entry names has an id and a version. -/
theorem Dependency.isComplete_of_parse {entry : Text} {d : Dependency}
    (h : Dependency.parse entry = .ok d) : d.isComplete = true := by
  obtain ⟨id, version, rfl, hn⟩ := reads_parse.normal (by simp) h
  rw [isComplete, hn.notBlank.1, hn.notBlank.2]
  rfl

/-- Settings pass where the language, if there is one, is known and every dependency is complete. -/
theorem Settings.check_eq_ok_iff (s : Settings) :
    s.check = .ok () ↔
      (∀ name, s.project.language = some name → (Language.parse? name).isSome) ∧
        ∀ d ∈ s.package.dependencies, d.isComplete = true := by
  rw [← List.all_eq_true]
  cases hlanguage : s.project.language with
  | none =>
    cases hcheck : s.package.dependencies.all Dependency.isComplete <;>
      simp [check, hlanguage, hcheck, pure, Except.pure, throw, throwThe, MonadExceptOf.throw]
  | some name =>
    cases hparse : Language.parse? name with
    | none => simp [check, hlanguage, Language.parse, hparse, bind, Except.bind]
    | some l =>
      cases hcheck : s.package.dependencies.all Dependency.isComplete <;>
        simp [check, hlanguage, Language.parse, hparse, hcheck, bind, Except.bind, pure,
          Except.pure, throw, throwThe, MonadExceptOf.throw]

/-- **Entries name exactly the normal pairs, and the dependencies they name pass the check.** -/
theorem Entry.normalForms_parse :
    Entry.NormalForms Dependency.parse Dependency.mk Entry.IsDivided ∧
      Entry.NormalForms FileEntry.parse FileEntry.mk
        (fun entry => Entry.IsDivided entry ∨ Entry.IsWhole entry) ∧
      (∀ entry, Entry.IsWhole entry →
        FileEntry.parse entry = .ok ⟨Text.trim entry, contentFolder⟩) ∧
      ∀ s : Settings,
        (∀ name, s.project.language = some name → (Language.parse? name).isSome) →
        (∀ d ∈ s.package.dependencies, ∃ entry, Dependency.parse entry = .ok d) →
        s.check = .ok () := by
  refine ⟨?_, ?_, fun entry hentry => ?_, fun s hlanguage hparsed => ?_⟩
  · have h := Dependency.reads_parse.normalForms (by simp) (by simp)
    simpa using h
  · have hfolder : contentFolder ≠ [] ∧ Text.trim contentFolder = contentFolder := by decide
    have h := FileEntry.reads_parse.normalForms (by simpa using hfolder) (by simp)
    simpa using h
  · exact (FileEntry.reads_parse.whole hentry.1).2 ⟨hentry.2, _, rfl, rfl⟩
  · refine (Settings.check_eq_ok_iff s).2 ⟨hlanguage, fun d hd => ?_⟩
    obtain ⟨entry, hentry⟩ := hparsed d hd
    exact Dependency.isComplete_of_parse hentry

/-- Settings with a language and two dependencies from entries, and a file without a type. -/
theorem Entry.normalForms_parse_settings :
    let s : Settings := {
      project := { language := some " vb ".toList }
      package := { dependencies := [⟨"Orders", "1.0=beta"⟩, ⟨"Newtonsoft.Json", "13.0.1"⟩] } }
    (∀ d ∈ s.package.dependencies, ∃ entry, Dependency.parse entry = .ok d) ∧ s.check = .ok () ∧
      FileEntry.parse " readme.txt " = .ok ⟨"readme.txt", contentFolder⟩ := by
  intro s
  have hparsed : ∀ d ∈ s.package.dependencies, ∃ entry, Dependency.parse entry = .ok d := by
    intro d hd
    rcases List.mem_cons.1 hd with rfl | hd
    · exact ⟨" Orders = 1.0=beta ", by decide⟩
    · obtain rfl := List.mem_singleton.1 hd
      exact ⟨"Newtonsoft.Json=13.0.1", by decide⟩
  have hlanguage : ∀ name, s.project.language = some name → (Language.parse? name).isSome := by
    intro name hname
    obtain rfl := Option.some.inj hname
    decide
  obtain ⟨-, -, hwhole, hcheck⟩ := Entry.normalForms_parse
  exact ⟨hparsed, hcheck s hlanguage hparsed, hwhole " readme.txt " ⟨by decide, by decide⟩⟩

end Nameplate
