/-
# Starting a development

A new development version says by itself what becomes of every line: it is the
value of the lines with the semantic marker, and of all others with a component
more. Nothing else that a stamping is asked for has a say in it: no version
part, no release version and no time. Whether it is a release decides one thing
only, the release that comes next (`stampSource_newDevelopment`).

So two stampings that start the same development fail alike or write the same
file, and neither fails for want of a version part
(`stampSource_sameDevelopment`).

Key definition: `Stamped.ReleasesNext`.
Key theorems: `stampSource_newDevelopment`, `stampSource_sameDevelopment`.
-/
import Nameplate.Proofs.Version.Clock
import Nameplate.Proofs.Version.Outcome

namespace Nameplate

namespace Stamping

variable {m : Markers} {o o' : StampOptions} {v : Text}

/-- The rule for a line is chosen by its marker, and the version is all it needs. -/
theorem apply_ruleFor_of_newDevelopment (ho : o.newDevelopment = some v) (semantic : Bool)
    (line : Text) :
    (ruleFor m o semantic line).apply o line =
      some (if Text.contains m.semanticVersion line then Template.newSemantic v line
        else Template.newNumeric v line) := by
  unfold ruleFor
  rw [ho]
  by_cases hs : Text.contains m.semanticVersion line = true
  · rw [if_pos hs]
    simp only [hs, if_true]
    rfl
  · rw [if_neg hs]
    simp only [hs]
    rfl

theorem stampText_of_newDevelopment (ho : o.newDevelopment = some v)
    (ho' : o'.newDevelopment = some v) (s : State) (line : Text) :
    stampText m o s line = stampText m o' s line := by
  unfold stampText
  simp only [apply_ruleFor_of_newDevelopment ho, apply_ruleFor_of_newDevelopment ho']

/-- Every logical line can be stamped. -/
theorem stampGroups_ne_none_of_newDevelopment (ho : o.newDevelopment = some v) (gs : List Group) :
    stampGroups m o {} gs ≠ none := by
  have hs₀ : ({} : State).semantic = declaresSemantic m [] := rfl
  intro hnone
  obtain ⟨_, _, _, hwants⟩ := (stampGroups_eq_none_iff hs₀).1 hnone
  have hnew := hwants.notNew
  rw [ho] at hnew
  cases hnew

end Stamping

open Stamping

/-- **Starting a development under other options** comes to the same, but for the release that comes
next. -/
theorem stampSource_newDevelopment (p : Profile) {o o' : StampOptions} {v : Text}
    (ho : o.newDevelopment = some v) (ho' : o'.newDevelopment = some v) (path : Path)
    (source : Source) :
    stampSource p o' path source =
      (stampSource p o path source).map fun r =>
        { r with next := upcoming r.version o'.isRelease } := by
  have hrun := stampGroups_congr (m := p.markers) (stampText_of_newDevelopment ho' ho)
  unfold stampSource
  simp only [hrun]
  cases stampGroups p.markers o {} (source.strict.groups p.declaresVersion p.joinsNextLine) with
  | none => rfl
  | some q =>
    obtain ⟨lines, semantic, version⟩ := q
    cases source.strict.failure with
    | some fault => rfl
    | none => cases version <;> rfl

theorem stampSource_ne_noVersionPart (p : Profile) {o : StampOptions} {v : Text}
    (ho : o.newDevelopment = some v) (path file : Path) (source : Source) :
    stampSource p o path source ≠ .error (.settings (.noVersionPart file)) := by
  have hrun := stampGroups_ne_none_of_newDevelopment (m := p.markers) ho
    (source.strict.groups p.declaresVersion p.joinsNextLine)
  unfold stampSource
  simp only
  split
  next hnone => exact absurd hnone hrun
  next => split <;> simp

/-- The release that comes next: of a release it is the development that comes next without its
mark, of anything else what the version has before its first hyphen. -/
structure Stamped.ReleasesNext (isRelease : Bool) (r : Stamped) : Prop where
  unreleased : isRelease = false → r.next.release = r.version.takeWhile (· ≠ '-')
  released : isRelease = true → r.next.release ++ Template.mark = r.next.development

theorem Stamped.releasesNext {p : Profile} {o : StampOptions} {path : Path} {source : Source}
    {r : Stamped} (h : stampSource p o path source = .ok r) : r.ReleasesNext o.isRelease := by
  obtain ⟨-, -, -, -, -, -, -, hnext, -⟩ := stampSource_eq_ok_iff.1 h
  rw [upcoming] at hnext
  constructor
  · intro hrelease
    rw [hnext, hrelease, ← coreVersion_eq_takeWhile]
    rfl
  · intro hrelease
    rw [hnext, hrelease]
    rfl

/-- **The same development is started alike under any options.** Two stampings that start it fail
for the same reason, which is never a part that is wanting, or they write the same file and report
the same version. They differ in the release that comes next, and only if one of them is a
release. -/
theorem stampSource_sameDevelopment (l : Language) {o o' : StampOptions} {v : Text}
    (ho : o.newDevelopment = some v) (ho' : o'.newDevelopment = some v) (path : Path)
    (source : Source) :
    (∃ failure, stampSource l.profile o path source = .error failure ∧
        stampSource l.profile o' path source = .error failure ∧
        ∀ file, failure ≠ .settings (.noVersionPart file)) ∨
      ∃ r r', stampSource l.profile o path source = .ok r ∧
        stampSource l.profile o' path source = .ok r' ∧
        r'.content = r.content ∧ r'.version = r.version ∧ r'.isSemantic = r.isSemantic ∧
        r'.next.development = r.next.development ∧ r'.path = r.path ∧
        r.ReleasesNext o.isRelease ∧ r'.ReleasesNext o'.isRelease ∧
        (o'.isRelease = o.isRelease → r' = r) := by
  have hsame := stampSource_newDevelopment l.profile ho ho' path source
  cases h : stampSource l.profile o path source with
  | error failure =>
    rw [h] at hsame
    refine Or.inl ⟨failure, rfl, hsame, fun file hfile => ?_⟩
    exact stampSource_ne_noVersionPart l.profile ho path file source (hfile ▸ h)
  | ok r =>
    rw [h] at hsame
    obtain ⟨-, -, -, -, -, -, -, hnext, -⟩ := stampSource_eq_ok_iff.1 h
    refine Or.inr ⟨r, _, rfl, hsame, rfl, rfl, rfl, ?_, rfl, Stamped.releasesNext h,
      Stamped.releasesNext hsame, fun hrelease => ?_⟩
    · rw [hnext]
      rfl
    · simp only [hrelease, ← hnext]

/-- A pair whose value is shorter than before, and a second version to be filled in. -/
def pairAndFileVersion : Text :=
  "CUSTOM-ATTRIBUTE CA-ASSEMBLYINFORMATIONALVERSION \"1.10.100-d201901011200\"\n.\n".toList ++
    "CUSTOM-ATTRIBUTE CA-ASSEMBLYFILEVERSION\r\n\"1.*\""

/-- A release of the year 12019 that has a version of its own, and a development that has neither a
part nor a version: both cut the pair where its value ended, and fill the second version alike. -/
theorem stampSource_sameDevelopment_release :
    ∃ r r' : Stamped,
      stampSource Language.cobol.profile
        { newDevelopment := some "1.2.0".toList, now := ⟨2019, 1, 1, 12, 0⟩ } "info"
        (Source.ofText pairAndFileVersion) = .ok r ∧
      stampSource Language.cobol.profile
        { versionPart := some "*".toList, isRelease := true, releaseVersion := some "9.9".toList
          newDevelopment := some "1.2.0".toList, now := ⟨12019, 1, 1, 12, 0⟩ } "info"
        (Source.ofText pairAndFileVersion) = .ok r' ∧
      r.content = "CUSTOM-ATTRIBUTE CA-ASSEMBLYINFORMATIONALVERSION \"1.2.0-d\"\n.\n".toList ++
        "CUSTOM-ATTRIBUTE CA-ASSEMBLYFILEVERSION\r\n\"1.2.0.0\"" ∧
      r'.content = r.content ∧ r'.version = r.version ∧
      r'.next.development = r.next.development ∧
      r.next.release = "1.2.0".toList ∧ r'.next.release = "1.3.0".toList := by
  have h : stampSource Language.cobol.profile
      { newDevelopment := some "1.2.0".toList, now := ⟨2019, 1, 1, 12, 0⟩ } "info"
      (Source.ofText pairAndFileVersion) = .ok {
        content := "CUSTOM-ATTRIBUTE CA-ASSEMBLYINFORMATIONALVERSION \"1.2.0-d\"\n.\n".toList ++
          "CUSTOM-ATTRIBUTE CA-ASSEMBLYFILEVERSION\r\n\"1.2.0.0\""
        version := "1.2.0-d"
        isSemantic := true
        next := ⟨"1.2.0", "1.3.0-d"⟩
        path := "info" } := by
    decide +kernel
  have hplain : StampOptions.newDevelopment
      { newDevelopment := some "1.2.0".toList, now := ⟨2019, 1, 1, 12, 0⟩ } =
      some "1.2.0".toList := rfl
  have hfull : StampOptions.newDevelopment
      { versionPart := some "*".toList, isRelease := true, releaseVersion := some "9.9".toList
        newDevelopment := some "1.2.0".toList, now := ⟨12019, 1, 1, 12, 0⟩ } =
      some "1.2.0".toList := rfl
  rcases stampSource_sameDevelopment .cobol hplain hfull "info"
    (Source.ofText pairAndFileVersion) with
    ⟨failure, hfailed, -⟩ | ⟨r, r', hr, hr', hcontent, hversion, -, hdevelopment, -, -, hnext, -⟩
  · rw [h] at hfailed
    cases hfailed
  · obtain rfl := Except.ok.inj (h.symm.trans hr)
    have hreleased : r'.next.release ++ Template.mark = "1.3.0-d".toList := by
      rw [hnext.released rfl, hdevelopment]
    have hrelease : r'.next.release = "1.3.0".toList :=
      List.append_cancel_right (hreleased.trans (by decide : _ = "1.3.0".toList ++ Template.mark))
    exact ⟨_, r', hr, hr', rfl, hcontent, hversion, hdevelopment, rfl, hrelease⟩

end Nameplate
