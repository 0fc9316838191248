/-
# The entries of a properties file

A line takes the version when it mentions the project version and has a `=`
(`Sonar.Takes`): what stands behind its first `=` is replaced, and every other
line is kept (`Sonar.LineStamped`). A version without line feed and carriage
return keeps the lines apart, so what was written is read back as the same
lines with the same endings (`Sonar.split_stampedText`), whether they were cut
short by a lone carriage return, had no value or lacked an ending. Stamped with
the same version again, the file stays as it is (`Sonar.stampSource_values`).

Stamped with another version, a file need not become what that version makes of
it alone. An entry mentions the project version before its first `=`, and so it
is found again. A line that mentions it only behind is found once: its mention
is overwritten with the first version, which then stays. So the last version
wins just where every line that takes a version is an entry
(`Sonar.stampSource_lastWins`).

Key definitions: `Sonar.Takes`, `Sonar.IsEntry`, `Sonar.LineStamped`,
`Sonar.Valued`.
Key theorems: `Sonar.takes_stampLine_iff`, `Sonar.split_stampedText`,
`Sonar.stampSource_values`, `Sonar.stampSource_lastWins`.
-/
import Mathlib.Data.List.Forall2
import Nameplate.Proofs.Line.Physical
import Nameplate.Proofs.Text.Contains
import Nameplate.Sonar

namespace Nameplate
namespace Sonar

variable {version v₁ v₂ key value content : Text} {l : Line}

/-! ### One line -/

/-- The line takes the version: it mentions the project version and has a `=`. -/
def Takes (l : Line) : Prop := Text.contains versionKey l.text = true ∧ '=' ∈ l.text

/-- The line mentions the project version before its first `=`. -/
def IsEntry (l : Line) : Prop :=
  Text.contains versionKey (l.text.takeWhile (· ≠ '=')) = true ∧ '=' ∈ l.text

instance : DecidablePred Takes := fun _ => inferInstanceAs (Decidable (_ ∧ _))

instance : DecidablePred IsEntry := fun _ => inferInstanceAs (Decidable (_ ∧ _))

/-- What stamping makes of a line. -/
inductive LineStamped (version : Text) : Line → Line → Prop
  | kept {l : Line} (h : ¬ Takes l) : LineStamped version l l
  | valued {key value : Text} {ending : Ending} (hkey : '=' ∉ key)
      (h : Takes ⟨key ++ '=' :: value, ending⟩) :
      LineStamped version ⟨key ++ '=' :: value, ending⟩ ⟨key ++ '=' :: version, ending⟩

/-- A line with a `=` is a key and a value. -/
theorem exists_key (h : '=' ∈ l.text) :
    ∃ key value, l = ⟨key ++ '=' :: value, l.ending⟩ ∧ '=' ∉ key := by
  cases hs : Text.splitAtFirst '=' l.text with
  | none => exact absurd h ((Text.splitAtFirst_eq_none_iff '=' l.text).1 hs)
  | some parts =>
    obtain ⟨htext, hkey⟩ := Text.eq_of_splitAtFirst hs
    exact ⟨parts.1, parts.2, by rw [← htext], hkey⟩

theorem isSome_stampText? (version : Text) (l : Line) :
    (stampText? version l.text).isSome = decide (Takes l) := by
  unfold stampText?
  cases hs : Text.splitAtFirst '=' l.text with
  | none =>
    have hnone := (Text.splitAtFirst_eq_none_iff '=' l.text).1 hs
    simp [Takes, hnone]
  | some parts =>
    obtain ⟨htext, -⟩ := Text.eq_of_splitAtFirst hs
    have hmem : '=' ∈ l.text := by simp [htext]
    simp only [Takes, hmem, and_true]
    cases Text.contains versionKey l.text <;> rfl

theorem stampLine_of_not_takes (h : ¬ Takes l) : stampLine version l = l := by
  have hnone : stampText? version l.text = none := by
    rw [← Option.not_isSome_iff_eq_none, isSome_stampText?, decide_eq_true_eq]
    exact h
  rw [stampLine, hnone, Option.getD_none]

theorem stampLine_of_takes {ending : Ending} (hkey : '=' ∉ key)
    (h : Takes ⟨key ++ '=' :: value, ending⟩) :
    stampLine version ⟨key ++ '=' :: value, ending⟩ = ⟨key ++ '=' :: version, ending⟩ := by
  simp only [stampLine, stampText?, Text.splitAtFirst_append hkey, if_pos h.1, Option.getD_some]

theorem lineStamped_stampLine (version : Text) (l : Line) :
    LineStamped version l (stampLine version l) := by
  by_cases h : Takes l
  · obtain ⟨key, value, hl, hkey⟩ := exists_key h.2
    rw [hl] at h ⊢
    rw [stampLine_of_takes hkey h]
    exact .valued hkey h
  · rw [stampLine_of_not_takes h]
    exact .kept h

/-! ### Stamping a line again -/

theorem isEntry_iff {ending : Ending} (hkey : '=' ∉ key) :
    IsEntry ⟨key ++ '=' :: value, ending⟩ ↔ Text.contains versionKey key = true := by
  have hbefore : ∀ c ∈ key, decide (c ≠ '=') = true := by
    intro c hc
    refine decide_eq_true ?_
    rintro rfl
    exact hkey hc
  have hfirst : (key ++ '=' :: value).takeWhile (· ≠ '=') = key := by
    rw [List.takeWhile_append_of_pos hbefore, List.takeWhile_cons_of_neg (by simp),
      List.append_nil]
  rw [IsEntry, hfirst]
  exact and_iff_left (by simp)

/-- **The project version is mentioned before a `=` or behind it.** -/
theorem takes_iff {ending : Ending} :
    Takes ⟨key ++ '=' :: value, ending⟩ ↔
      Text.contains versionKey key = true ∨ Text.contains versionKey value = true := by
  have hcontains := Text.contains_append_cons (m := versionKey) (c := '=') (by decide) (by decide)
    key value
  simp [Takes, hcontains]

theorem IsEntry.takes (h : IsEntry l) : Takes l := by
  obtain ⟨key, value, hl, hkey⟩ := exists_key h.2
  rw [hl] at h ⊢
  exact takes_iff.2 (Or.inl ((isEntry_iff hkey).1 h))

/-- **Only entries are found again** after a version that does not mention the project version. -/
theorem takes_stampLine_iff (hv : Text.contains versionKey v₁ = false) :
    Takes (stampLine v₁ l) ↔ IsEntry l := by
  by_cases h : Takes l
  · obtain ⟨key, value, hl, hkey⟩ := exists_key h.2
    rw [hl] at h ⊢
    rw [stampLine_of_takes hkey h, takes_iff, isEntry_iff hkey, hv]
    simp
  · rw [stampLine_of_not_takes h]
    exact iff_of_false h fun he => h he.takes

/-- Where the line is found again, its value is replaced. -/
theorem stampLine_stampLine (h : Takes (stampLine v₁ l)) :
    stampLine v₂ (stampLine v₁ l) = stampLine v₂ l := by
  by_cases hl : Takes l
  · obtain ⟨key, value, he, hkey⟩ := exists_key hl.2
    rw [he] at hl h ⊢
    rw [stampLine_of_takes hkey hl] at h ⊢
    rw [stampLine_of_takes hkey h, stampLine_of_takes hkey hl]
  · rw [stampLine_of_not_takes hl]

/-- Whether the line is found again or not, the same version changes nothing. -/
theorem stampLine_idem (version : Text) (l : Line) :
    stampLine version (stampLine version l) = stampLine version l := by
  by_cases h : Takes (stampLine version l)
  · exact stampLine_stampLine h
  · exact stampLine_of_not_takes h

/-! ### The lines of a file -/

theorem isPhysical_stampLine (hn : '\n' ∉ version) (hr : '\r' ∉ version) (h : l.IsPhysical) :
    (stampLine version l).IsPhysical := by
  by_cases ht : Takes l
  · obtain ⟨key, value, hl, hkey⟩ := exists_key ht.2
    have hline := h.lineFeed_notMem
    rw [hl] at ht hline ⊢
    rw [stampLine_of_takes hkey ht]
    refine ⟨?_, fun _ hlast => ?_, fun _ => by simp⟩
    · simp only [List.mem_append, List.mem_cons, not_or] at hline ⊢
      exact ⟨hline.1, by decide, hn⟩
    · -- the last character is the `=` or one of the version
      have hmem : '\r' ∈ '=' :: version := by
        rw [List.getLast?_append, List.getLast?_cons, Option.some_or] at hlast
        exact List.mem_of_getLast? (List.getLast?_cons.trans hlast)
      rcases List.mem_cons.1 hmem with he | hv
      · exact absurd he (by decide)
      · exact hr hv
  · rwa [stampLine_of_not_takes ht]

/-- A text with the version in its lines. -/
def stampedText (version content : Text) : Text :=
  Line.join ((Line.split content).map (stampLine version))

/-- **The stamped lines are the lines of what is written.** -/
theorem split_stampedText (hn : '\n' ∉ version) (hr : '\r' ∉ version) (content : Text) :
    Line.split (stampedText version content) = (Line.split content).map (stampLine version) := by
  have hproper := Line.proper_split content
  refine Line.split_join (hproper.of_forall₂ ?_)
  rw [List.forall₂_map_right_iff, List.forall₂_same]
  exact fun l hl => ⟨isPhysical_stampLine hn hr (hproper.isPhysical l hl), rfl⟩

/-- A file that holds a text can be stamped. -/
theorem stampSource_ofText (version content : Text) :
    stampSource version (.ofText content) =
      .ok (stampedText version content, (Line.split content).countP (Takes ·)) := by
  simp only [stampSource, Source.strict_ofText, stampLines, isSome_stampText?, stampedText]

/-- A text with the version in its lines stays as it is. -/
theorem stampedText_idem (hn : '\n' ∉ version) (hr : '\r' ∉ version) (content : Text) :
    stampedText version (stampedText version content) = stampedText version content := by
  have hlines : ((Line.split content).map (stampLine version)).map (stampLine version) =
      (Line.split content).map (stampLine version) := by
    rw [List.map_map]
    exact List.map_congr_left fun l _ => stampLine_idem version l
  rw [stampedText, split_stampedText hn hr, hlines, stampedText]

/-- Stamping makes `result` of `content`, and `replaced` lines take the version. -/
structure Valued (version content result : Text) (replaced : Nat) : Prop where
  answer : stampSource version (.ofText content) = .ok (result, replaced)
  lines : List.Forall₂ (LineStamped version) (Line.split content) (Line.split result)
  replaced_eq : replaced = (Line.split content).countP (Takes ·)
  /-- The same version again changes nothing. -/
  again : ∃ n, stampSource version (.ofText result) = .ok (result, n)

/-- **Stamping touches only the values it counts.** -/
theorem stampSource_values (content : Text) (hn : '\n' ∉ version) (hr : '\r' ∉ version) :
    ∃ result replaced, Valued version content result replaced := by
  refine ⟨_, _, stampSource_ofText version content, ?_, rfl, ?_⟩
  · rw [split_stampedText hn hr, List.forall₂_map_right_iff, List.forall₂_same]
    exact fun l _ => lineStamped_stampLine version l
  · have hagain := stampSource_ofText version (stampedText version content)
    rw [stampedText_idem hn hr] at hagain
    exact ⟨_, hagain⟩

/-- Lone carriage returns, a mention behind the `=`, an empty value, a mention without `=`, no
ending; and a version with a `=`. -/
theorem stampSource_values_odd :
    let content := ("a\rsonar.projectVersion=1\r\r\nb=sonar.projectVersion\n" ++
      "sonar.projectVersion=\n#sonar.projectVersion\r\nsonar.projectVersion==\r").toList
    let result := ("a\rsonar.projectVersion=1=2\r\nb=1=2\n" ++
      "sonar.projectVersion=1=2\n#sonar.projectVersion\r\nsonar.projectVersion=1=2").toList
    ('\n' ∉ "1=2".toList ∧ '\r' ∉ "1=2".toList) ∧ Valued "1=2" content result 4 := by
  intro content result
  have hversion : '\n' ∉ "1=2".toList ∧ '\r' ∉ "1=2".toList := by decide
  have hanswer : stampSource "1=2" (.ofText content) = .ok (result, 4) := by decide +kernel
  obtain ⟨result', replaced, hvalued⟩ := stampSource_values content hversion.1 hversion.2
  obtain ⟨rfl, rfl⟩ := Prod.mk.inj (Except.ok.inj (hanswer.symm.trans hvalued.answer))
  exact ⟨hversion, hvalued⟩

/-! ### Stamping with one version after another -/

/-- A version of digits, dots and hyphens. -/
def IsVersion (v : Text) : Prop := ∀ c ∈ v, c.isDigit = true ∨ c = '.' ∨ c = '-'

instance : DecidablePred IsVersion := fun v =>
  List.decidableBAll (fun c : Char => c.isDigit = true ∨ c = '.' ∨ c = '-') v

theorem IsVersion.notMem (h : IsVersion version) {c : Char}
    (hc : ¬ (c.isDigit = true ∨ c = '.' ∨ c = '-')) : c ∉ version :=
  fun hm => hc (h c hm)

theorem IsVersion.contains_eq_false (h : IsVersion version) :
    Text.contains versionKey version = false :=
  Text.contains_eq_false_of_mem (c := 's') (by decide) (h.notMem (by decide))

/-- There are as many entries as lines that take a version when those lines are all entries. -/
theorem countP_isEntry_eq_iff (ls : List Line) :
    ls.countP (IsEntry ·) = ls.countP (Takes ·) ↔ ∀ l ∈ ls, Takes l → IsEntry l := by
  have hboth : ∀ l : Line, (decide (IsEntry l) && decide (Takes l)) = decide (IsEntry l) := by
    intro l
    rw [← Bool.decide_and, decide_eq_decide]
    exact and_iff_left_of_imp IsEntry.takes
  have hcount : ls.countP (IsEntry ·) = (ls.filter (Takes ·)).countP (IsEntry ·) := by
    simp only [List.countP_filter, hboth]
  rw [hcount, List.countP_eq_length_filter (p := (Takes ·)), List.countP_eq_length]
  simp only [List.mem_filter, decide_eq_true_eq, and_imp]

/-- **The last version wins just where every line that takes one is an entry**: the first version
leaves no trace then. -/
theorem stampSource_lastWins (content v₂ : Text) (h₁ : IsVersion v₁) :
    ∃ between n₁ after n₂, stampSource v₁ (.ofText content) = .ok (between, n₁) ∧
      stampSource v₂ (.ofText content) = .ok (after, n₂) ∧
      (stampSource v₂ (.ofText between) = .ok (after, n₂) ↔
        ∀ l ∈ Line.split content, Takes l → IsEntry l) := by
  refine ⟨_, _, _, _, stampSource_ofText v₁ content, stampSource_ofText v₂ content, ?_⟩
  have hsplit : Line.split (stampedText v₁ content) = (Line.split content).map (stampLine v₁) :=
    split_stampedText (h₁.notMem (by decide)) (h₁.notMem (by decide)) content
  have hcount : ((Line.split content).map (stampLine v₁)).countP (Takes ·) =
      (Line.split content).countP (IsEntry ·) := by
    rw [List.countP_map]
    refine List.countP_congr fun l _ => ?_
    simp only [Function.comp_apply, decide_eq_true_eq]
    exact takes_stampLine_iff h₁.contains_eq_false
  rw [stampSource_ofText, Except.ok.injEq, Prod.mk.injEq, hsplit, hcount, countP_isEntry_eq_iff]
  refine and_iff_right_of_imp fun hentries => ?_
  rw [stampedText, hsplit, List.map_map, stampedText]
  refine congrArg Line.join (List.map_congr_left fun l hl => ?_)
  rw [Function.comp_apply]
  by_cases ht : Takes l
  · exact stampLine_stampLine ((takes_stampLine_iff h₁.contains_eq_false).2 (hentries l hl ht))
  · rw [(stampLine_of_not_takes ht : stampLine v₁ l = l)]

/-- Entries on a comment line and with a second mention, beside lines that take no version. -/
theorem stampSource_lastWins_comment :
    let content :=
      "#sonar.projectVersion=\r\nname=a\nsonar.projectVersion=sonar.projectVersion=".toList
    let after := "#sonar.projectVersion=2.0\r\nname=a\nsonar.projectVersion=2.0".toList
    IsVersion "1.0-3" ∧ ∃ between, stampSource "1.0-3" (.ofText content) = .ok (between, 2) ∧
      stampSource "2.0" (.ofText between) = .ok (after, 2) ∧
      stampSource "2.0" (.ofText content) = .ok (after, 2) := by
  intro content after
  have hversion : IsVersion "1.0-3" := by decide +kernel
  have hentries : ∀ l ∈ Line.split content, Takes l → IsEntry l := by decide +kernel
  have hone : stampSource "1.0-3" (.ofText content) = .ok
      ("#sonar.projectVersion=1.0-3\r\nname=a\nsonar.projectVersion=1.0-3", 2) := by
    decide +kernel
  have htwo : stampSource "2.0" (.ofText content) = .ok (after, 2) := by decide +kernel
  obtain ⟨between, n₁, after', n₂, hbetween, hafter, hwins⟩ :=
    stampSource_lastWins content "2.0" hversion
  obtain ⟨rfl, rfl⟩ := Prod.mk.inj (Except.ok.inj (hone.symm.trans hbetween))
  obtain ⟨rfl, rfl⟩ := Prod.mk.inj (Except.ok.inj (htwo.symm.trans hafter))
  exact ⟨hversion, _, hbetween, hwins.2 hentries, htwo⟩

/-- Not every file is stamped the same after another version: a line that mentions the project
version behind its `=` keeps the first one. -/
theorem stampSource_lastWins_mention :
    ¬ ∀ content v₁ v₂ between after : Text, ∀ n₁ n₂, IsVersion v₁ → IsVersion v₂ →
      stampSource v₁ (.ofText content) = .ok (between, n₁) →
      stampSource v₂ (.ofText content) = .ok (after, n₂) →
      stampSource v₂ (.ofText between) = .ok (after, n₂) := by
  intro h
  have hsame := h "ci=sonar.projectVersion" "1" "2" "ci=1" "ci=2" 1 1
    (by decide +kernel) (by decide +kernel) (by decide +kernel) (by decide +kernel)
  revert hsame
  decide +kernel

end Sonar
end Nameplate
