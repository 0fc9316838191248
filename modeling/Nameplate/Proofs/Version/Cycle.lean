/-
# Cycles of development and release

A project moves on by feeding a version that was announced back as the version
it has: `developed` follows the development versions, `released` the releases.
Both go the same way. Whatever the version is to begin with, what comes next is
a release without a hyphen, or the same with the mark of development
(`hyphen_notMem_released`); the mark is all that is left out again when the
development version is looked at, so after any number of cycles the two differ
by the mark only (`developed_succ`).

Key definitions: `developed`, `released`, `Upcoming.InStep`.
Key theorems: `hyphen_notMem_released`, `developed_succ`, `upcoming_inStep`.
-/
import Nameplate.Proofs.Version.Printed

namespace Nameplate

open Template

/-- The version after `n` cycles in which the development version is fed back; `isRelease` says
which of them are releases. -/
def developed (isRelease : Nat → Bool) (version : Text) : Nat → Text
  | 0 => version
  | n + 1 =>
    let current := developed isRelease version n
    (upcoming current (isRelease n)).development

/-- The version after `n` releases, each fed back. -/
def released (version : Text) : Nat → Text
  | 0 => version
  | n + 1 => (upcoming (released version n) true).release

/-! ### One cycle -/

/-- **No hyphen gets into the next release**, neither from the numbers nor from the identifiers of
a version. -/
theorem hyphen_notMem_released (version : Text) : '-' ∉ (upcoming version true).release := by
  have hcore := hyphen_notMem_coreVersion version
  show '-' ∉ (nextMinor? (coreVersion version)).getD (coreVersion version)
  cases hnext : nextMinor? (coreVersion version) with
  | none => exact hcore
  | some next =>
    intro hm
    rcases mem_nextMinor? hnext hm with hdigit | hdot | hmem
    · exact absurd hdigit (by decide)
    · exact absurd hdot (by decide)
    · exact hcore hmem

/-! ### Any number of cycles -/

/-- **After any number of cycles** the development version is the release with the mark of
development. -/
theorem developed_succ (isRelease : Nat → Bool) (version : Text) (n : Nat) :
    developed isRelease version (n + 1) = released version (n + 1) ++ mark := by
  induction n with
  | zero => exact upcoming_development version (isRelease 0)
  | succ n ih =>
    -- the mark that was fed back is left out, and the release has no hyphen to leave out
    have hhyphen : '-' ∉ released version (n + 1) := hyphen_notMem_released _
    have hcore : coreVersion (developed isRelease version (n + 1)) =
        coreVersion (released version (n + 1)) := by
      rw [ih, coreVersion_mark hhyphen, coreVersion_of_hyphen_notMem hhyphen]
    calc developed isRelease version (n + 2)
        = (upcoming (developed isRelease version (n + 1)) true).release ++ mark :=
          upcoming_development _ (isRelease (n + 1))
      _ = (upcoming (released version (n + 1)) true).release ++ mark := by
          rw [upcoming_congr hcore]
      _ = released version (n + 2) ++ mark := rfl

/-- The versions that are announced for `version`, from cycle to cycle. -/
structure Upcoming.InStep (version : Text) : Prop where
  hyphen_notMem : '-' ∉ (upcoming version true).release
  development_eq : ∀ isRelease,
    (upcoming version isRelease).development = (upcoming version true).release ++ mark
  unreleased_eq : (upcoming version false).release = version.takeWhile (· ≠ '-')
  fedBack_eq : ∀ isRelease, (upcoming (upcoming version isRelease).development false).release =
    (upcoming version true).release
  developed_eq : ∀ isRelease n,
    developed isRelease version (n + 1) = released version (n + 1) ++ mark

/-- **Development and release keep in step** from any version on. -/
theorem upcoming_inStep (version : Text) : Upcoming.InStep version where
  hyphen_notMem := hyphen_notMem_released version
  development_eq := upcoming_development version
  unreleased_eq := coreVersion_eq_takeWhile version
  fedBack_eq isRelease := by
    rw [upcoming_development]
    exact coreVersion_mark (hyphen_notMem_released version)
  developed_eq isRelease n := developed_succ isRelease version n

/-- Two cycles from a version with build identifiers, which stay. -/
example : developed (fun _ => false) "1.9.3-d2019+x" 2 = "1.11.0-d" ∧
    developed (fun _ => false) "1.9.3+x" 2 = "1.11.0+x-d" := by
  decide +kernel

end Nameplate
