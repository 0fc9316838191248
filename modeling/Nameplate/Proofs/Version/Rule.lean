/-
# The rules

What decides on the rule for a line is said once (`Stamping.Selects`): a new
development version and the semantic marker, or else the second version, the
semantic versions declared so far and whether it is a release.

A rule looks at the value of the line, or at all of a line that has none, and
puts another in its place (`Rule.apply_eq`). So what holds of every rule is
said of values, by cases of `Rule.value?`.

Key definitions: `Stamping.Selects`, `Stamping.Rule.value?`.
Key theorems: `Stamping.selects_ruleFor`, `Stamping.Rule.apply_eq`.
-/
import Nameplate.Version.Stamping

namespace Nameplate

/-! ### The value of a line -/

namespace Text

/-- A change of the value puts what comes of it in its place. -/
theorem mapQuoted_eq (f : Text → Text) (line : Text) :
    mapQuoted f line = mapQuoted (fun _ => f (quotedOrAll line)) line := by
  unfold mapQuoted quotedOrAll
  cases Quoted.split? line <;> rfl

/-- A value put in its own place. -/
theorem mapQuoted_quotedOrAll (line : Text) :
    mapQuoted (fun _ => quotedOrAll line) line = line := by
  unfold mapQuoted quotedOrAll
  cases h : Quoted.split? line with
  | none => rfl
  | some q => exact (Quoted.line_of_split? h).1.symm

/-- A value that stays leaves its line. -/
theorem mapQuoted_eq_self {f : Text → Text} {line : Text}
    (h : f (quotedOrAll line) = quotedOrAll line) : mapQuoted f line = line := by
  rw [mapQuoted_eq, h, mapQuoted_quotedOrAll]

theorem quotedOrAll_line {q : Quoted} (hb : '"' ∉ q.before) (ha : '"' ∉ q.after) :
    quotedOrAll q.line = q.value := by
  rw [quotedOrAll, Quoted.split?_line hb ha]

theorem quotedOrAll_subset (line : Text) : quotedOrAll line ⊆ line := by
  unfold quotedOrAll
  cases h : Quoted.split? line with
  | none => exact List.Subset.refl line
  | some q =>
    obtain ⟨hline, -, -⟩ := Quoted.line_of_split? h
    intro c hc
    rw [hline, Quoted.line]
    exact List.mem_append_right _ (List.mem_cons_of_mem _ (List.mem_append_left _ hc))

theorem quoted_subset_quotedOrAll (line : Text) : quoted line ⊆ quotedOrAll line := by
  unfold quoted quotedOrAll
  cases Quoted.split? line with
  | none => exact List.nil_subset line
  | some q => exact List.Subset.refl q.value

/-- A new value, read back. On a line without quotes it may bring quotes of its own. -/
theorem quotedOrAll_mapQuoted_subset (v line : Text) :
    quotedOrAll (mapQuoted (fun _ => v) line) ⊆ v := by
  cases h : Quoted.split? line with
  | none =>
    simp only [mapQuoted, h]
    exact quotedOrAll_subset v
  | some q =>
    obtain ⟨-, hb, ha⟩ := Quoted.line_of_split? h
    have hsplit := Quoted.split?_line (q := { q with value := v }) hb ha
    simp only [mapQuoted, h, quotedOrAll, hsplit]
    exact List.Subset.refl v

end Text

/-- What is released is the value as it is, the version that is given, or the value without its
marks. -/
theorem Template.releaseValue_cases (version : Option Text) (value : Text) :
    Text.contains mark (zero value) = false ∧ releaseValue version value = zero value ∨
      Text.contains mark (zero value) = true ∧
        ((∃ v, version.bind Text.nonBlank? = some v ∧ releaseValue version value = dropMarks v) ∨
          version.bind Text.nonBlank? = none ∧
            releaseValue version value = dropMarks (zero value)) := by
  simp only [releaseValue]
  cases Text.contains mark (zero value) with
  | false => exact Or.inl ⟨rfl, rfl⟩
  | true =>
    refine Or.inr ⟨rfl, ?_⟩
    cases version.bind Text.nonBlank? with
    | none => exact Or.inr ⟨rfl, rfl⟩
    | some v => exact Or.inl ⟨v, rfl, rfl⟩

namespace Stamping

/-- Which rule stamps a line; `semantic` says whether a semantic version has been declared. -/
inductive Selects (m : Markers) (o : StampOptions) (semantic : Bool) (line : Text) : Rule → Prop
  | newSemantic {v : Text} : o.newDevelopment = some v →
      Text.contains m.semanticVersion line = true → Selects m o semantic line (.newSemantic v)
  | newNumeric {v : Text} : o.newDevelopment = some v →
      Text.contains m.semanticVersion line = false → Selects m o semantic line (.newNumeric v)
  | numeric : o.newDevelopment = none → m.isFileVersion line = true ∨ semantic = false →
      Selects m o semantic line .numeric
  | release : o.newDevelopment = none → m.isFileVersion line = false → semantic = true →
      o.isRelease = true → Selects m o semantic line .release
  | development : o.newDevelopment = none → m.isFileVersion line = false → semantic = true →
      o.isRelease = false → Selects m o semantic line .development

/-- **The rule for a line is the one that is selected.** -/
theorem selects_ruleFor (m : Markers) (o : StampOptions) (semantic : Bool) (line : Text) :
    Selects m o semantic line (ruleFor m o semantic line) := by
  unfold ruleFor
  cases hnew : o.newDevelopment with
  | some v =>
    by_cases hmarker : Text.contains m.semanticVersion line = true
    · simp only [hmarker, if_true]
      exact .newSemantic hnew hmarker
    · simp only [hmarker]
      exact .newNumeric hnew (by simpa using hmarker)
  | none =>
    by_cases hnumeric : (m.isFileVersion line || !semantic) = true
    · simp only [hnumeric, if_true]
      exact .numeric hnew (by simpa using hnumeric)
    · obtain ⟨hfile, hsemantic⟩ : m.isFileVersion line = false ∧ semantic = true := by
        simpa using hnumeric
      simp only [hnumeric]
      by_cases hrelease : o.isRelease = true
      · simp only [hrelease, if_true]
        exact .release hnew hfile hsemantic hrelease
      · simp only [hrelease]
        exact .development hnew hfile hsemantic (by simpa using hrelease)

variable {m : Markers} {o : StampOptions}

namespace Rule

/-- The value that a rule puts in the place of `value`. -/
def value? (o : StampOptions) (value : Text) : Rule → Option Text
  | .newSemantic v => some (Template.marked v)
  | .newNumeric v => some (Template.dropMarks v ++ ['.', '0'])
  | .numeric =>
    if Template.placeholder ∈ value then
      (o.versionPart.bind Text.nonBlank?).map fun part => Template.fill part value
    else some value
  | .release => some (Template.releaseValue o.releaseVersion value)
  | .development => some (Template.stampMark o.now.stamp (Template.zero value))

/-- **A rule changes the value of a line**, and sees nothing else of it. -/
theorem apply_eq (rule : Rule) (o : StampOptions) (line : Text) :
    rule.apply o line =
      (rule.value? o (Text.quotedOrAll line)).map fun v => Text.mapQuoted (fun _ => v) line := by
  have hmap (f : Text → Text) := congrArg some (Text.mapQuoted_eq f line)
  cases rule with
  | newSemantic | newNumeric | release | development => exact hmap _
  | numeric =>
    rw [apply, Template.numeric, Template.awaitsPart, value?]
    by_cases h : Template.placeholder ∈ Text.quotedOrAll line
    · rw [decide_eq_true h, if_pos rfl, if_pos h]
      cases o.versionPart.bind Text.nonBlank? with
      | none => rfl
      | some part => exact hmap _
    · rw [decide_eq_false h, if_neg Bool.false_ne_true, if_neg h, Option.map_some,
        Text.mapQuoted_quotedOrAll]

/-- The version that a rule starts with. -/
def given? : Rule → Option Text
  | .newSemantic v | .newNumeric v => some v
  | .numeric | .release | .development => none

end Rule

theorem Selects.given?_eq {semantic : Bool} {line : Text} {rule : Rule}
    (h : Selects m o semantic line rule) : rule.given? = o.newDevelopment := by
  cases h with
  | newSemantic hnew | newNumeric hnew | numeric hnew | release hnew | development hnew =>
    exact hnew.symm

end Stamping
end Nameplate
