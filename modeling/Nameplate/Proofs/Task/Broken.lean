/-
# Streams that break

A stream that breaks is never taken for a short file: whatever it delivered,
and wherever in it the failure falls, each of the three passes over its lines
fails (`Source.Refused`). Reading metadata takes every line and so ends in the
stream's own failure. Stamping, of versions and of properties, stops before at
a line that is no text; and stamping of versions at a number that is wanting in
a declaration that was read as a whole, which a pair that lost its second line
was not.

Each task opens one file to learn what it needs, its origin, before it writes
anything. Where the stream of that file breaks, the task fails and leaves all
files as they were (`Task.fails_run`).

Key definitions: `PhysicalLine.terminated`, `Source.Refused`, `Task.origin`.
Key theorems: `Source.refused`, `Task.fails_run`, `brokenStream_refused`.
-/
import Nameplate.Proofs.Task.Agreement
import Nameplate.Proofs.Version.Outcome
import Nameplate.Run

namespace Nameplate

/-! ### The passes over a stream -/

/-- The lines that were terminated when the stream broke. -/
def PhysicalLine.terminated (bs : Bytes) : List PhysicalLine :=
  (split bs).filter fun l => l.ending ≠ .none

namespace Source

open Stamping

/-- What comes of a stream that delivers `bs` and then breaks: `r` is what a strict reading gets of
it, `fault` what ends that reading, and `gs` are the logical lines of what was read. -/
structure Refused (p : Profile) (bs : Bytes) (failure : Text) (r : Reading) (fault : ReadFault)
    (gs : List Group) : Prop where
  reading : StrictReading (some (.system failure)) (PhysicalLine.terminated bs) r
  ended : r.failure = some fault
  /-- It is the stream's own failure, unless a line before it is no text. -/
  cause : fault = .system failure ∨ ∃ (n : Nat) (l : PhysicalLine) (f : Utf8.Fault),
    (PhysicalLine.terminated bs)[n]? = some l ∧ Utf8.decode l.text = .error f ∧
      fault = .notText (n + 1) f
  grouped : Grouped p.declaresVersion p.joinsNextLine r.lines gs
  scanned : Record.scan p ⟨bs, some failure⟩ = .error (.system failure)
  announced : ∀ version, Sonar.stampSource version ⟨bs, some failure⟩ = .error fault
  stamped : ∀ (o : StampOptions) (path : Path),
    (LacksPart p o true gs ∧
      stampSource p o path ⟨bs, some failure⟩ = .error (.settings (.noVersionPart path))) ∨
    (¬ LacksPart p o true gs ∧ stampSource p o path ⟨bs, some failure⟩ = .error (.system fault))

/-- **A stream that breaks is refused by every pass.** -/
theorem refused (p : Profile) (bs : Bytes) (failure : Text) :
    ∃ r fault gs, Refused p bs failure r fault gs := by
  let s : Source := ⟨bs, some failure⟩
  have hr : StrictReading s.fault s.lines s.strict := strict_eq_iff.1 rfl
  obtain ⟨gs, hgs⟩ : ∃ gs, Grouped p.declaresVersion p.joinsNextLine s.strict.lines gs :=
    ⟨_, Group.grouped_sort _⟩
  obtain ⟨fault, hf⟩ := Option.isSome_iff_exists.1 (strict_failure_isSome (s := s) rfl)
  refine ⟨s.strict, fault, gs, hr, hf, ?_, hgs, Record.scan_of_failure p rfl, fun version => ?_,
    fun o path => ?_⟩
  · rcases hr.failure_cases with hlast | ⟨n, l, f, hl, hd, hn⟩
    · exact .inl (Option.some.inj (hf.symm.trans hlast))
    · exact .inr ⟨n, l, f, hl, hd, Option.some.inj (hf.symm.trans hn)⟩
  · show Sonar.stampSource version s = .error fault
    simp only [Sonar.stampSource, hf]
  · have hout : StampOutcome p o path s.strict.failure gs (stampSource p o path s) :=
      hr.outcome hgs
    rw [hf] at hout
    show (_ ∧ stampSource p o path s = _) ∨ (_ ∧ stampSource p o path s = _)
    generalize stampSource p o path s = answer at hout ⊢
    cases hout with
    | noVersionPart hl => exact .inl ⟨hl, rfl⟩
    | unreadable hl he => exact .inr ⟨hl, by rw [Option.some.inj he]⟩
    | noVersion _ he => cases he
    | stamped _ _ he => cases he

end Source

/-! ### Actions that fail before they write -/

namespace Action

variable {α β : Type} {s : Store}

/-- The action fails and leaves all files as they were. -/
def Fails (x : Action α) (s : Store) : Prop := ∃ e, on x s = (.error e, s)

theorem Fails.bind {x : Action α} (h : Fails x s) (f : α → Action β) : Fails (x >>= f) s := by
  obtain ⟨e, he⟩ := h
  exact ⟨e, by rw [on_bind, he]⟩

/-- What follows a read-only action must fail only where that one succeeds. -/
theorem ReadOnly.fails_bind {x : Action α} (hx : ReadOnly x) {f : α → Action β}
    (hf : ∀ a, (on x s).1 = .ok a → Fails (f a) s) : Fails (x >>= f) s := by
  unfold Fails
  rw [on_bind_of_readOnly hx]
  cases ha : (on x s).1 with
  | error e => exact ⟨e, rfl⟩
  | ok a => exact hf a ha

/-- An input that is missing fails the action; else the action goes on with it. -/
theorem fails_liftM_bind {e : Except Failure α} {f : α → Action β}
    (hf : ∀ a, e = .ok a → Fails (f a) s) : Fails (liftM e >>= f) s :=
  (ReadOnly.ofExcept e).fails_bind hf

end Action

open Nameplate.Action

/-! ### The file a task depends on -/

/-- The file that metadata is read from. -/
def MetadataRequest.origin (r : MetadataRequest) : Path :=
  match r.language.profile.compiled, r.artifact with
  | true, some artifact => Manifest.pathBeside artifact
  | _, _ => r.language.profile.fileIn r.projectDir r.infoPath

/-- The file from which a task learns the metadata, the versions or the properties of a project. -/
def Task.origin (settings : Settings) : Task → Action Path
  | .describe t => do return (← t.request settings).origin
  | .stamp t => do return (← t.target settings).path
  | .announce t => do
    Sonar.find (← settings.solutionDir t.solutionDir) (← settings.projectDir t.projectDir)
  | .pack t => do return (← t.request settings).metadata.origin

section Broken

variable {s : Store} {path : Path} {bs : Bytes} {failure : Text}

theorem on_openFile_of_openAt {source : Source} (h : s.openAt path = .ok source) :
    on (openFile path) s = (.ok source, s) := by
  rw [on_openFile, h]
  rfl

theorem fails_openFile_bind {α : Type} {f : Source → Action α} {source : Source}
    (h : s.openAt path = .ok source) (hf : Fails (f source) s) : Fails (openFile path >>= f) s := by
  unfold Fails
  rw [on_bind, on_openFile_of_openAt h]
  exact hf

theorem fails_stampFile {target : StampTarget} (o : StampOptions)
    (h : s.openAt target.path = .ok ⟨bs, some failure⟩) : Fails (stampFile target o) s := by
  obtain ⟨r, fault, gs, hr⟩ := Source.refused target.language.profile bs failure
  refine fails_openFile_bind h ?_
  rcases hr.stamped o target.path with ⟨-, he⟩ | ⟨-, he⟩
  · exact ⟨_, by rw [he, on_ofExcept]⟩
  · exact ⟨_, by rw [he, on_ofExcept]⟩

theorem fails_sonarStampFile {solutionDir projectDir : Path} (version : Text)
    (hfound : (on (Sonar.find solutionDir projectDir) s).1 = .ok path)
    (h : s.openAt path = .ok ⟨bs, some failure⟩) :
    Fails (Sonar.stampFile solutionDir projectDir version) s := by
  refine (readOnly_find solutionDir projectDir).fails_bind fun found hf => ?_
  obtain rfl : path = found := Except.ok.inj (hfound.symm.trans hf)
  refine fails_openFile_bind h ?_
  obtain ⟨fault, he⟩ := Sonar.stampSource_of_failure version (s := ⟨bs, some failure⟩) rfl
  exact ⟨_, by rw [he, on_throw]⟩

theorem fails_scanFile (p : Profile) (h : s.openAt path = .ok ⟨bs, some failure⟩) :
    Fails (scanFile p path) s :=
  fails_openFile_bind h ⟨_, by rw [Record.scan_of_failure p rfl, on_throw]⟩

theorem fails_readArtifact {artifact : Path}
    (h : s.openAt (Manifest.pathBeside artifact) = .ok ⟨bs, some failure⟩) :
    Fails (readArtifact artifact) s :=
  Fails.bind (fails_openFile_bind h ⟨_, rfl⟩) _

theorem fails_findMetadata {r : MetadataRequest} (h : s.openAt r.origin = .ok ⟨bs, some failure⟩) :
    Fails (findMetadata r) s := by
  cases hc : r.language.profile.compiled with
  | false =>
    simp only [MetadataRequest.origin, hc] at h
    simp only [findMetadata, hc]
    exact (fails_scanFile _ h).bind _
  | true =>
    cases ha : r.artifact with
    | none =>
      simp only [MetadataRequest.origin, hc, ha] at h
      simp only [findMetadata, hc, ha]
      exact (fails_scanFile _ h).bind _
    | some artifact =>
      simp only [MetadataRequest.origin, hc, ha] at h
      simp only [findMetadata, hc, ha]
      exact (fails_readArtifact h).bind _

theorem fails_makePackage {r : PackageRequest}
    (h : s.openAt r.metadata.origin = .ok ⟨bs, some failure⟩) : Fails (makePackage r) s := by
  have hfind : Fails (findBuiltMetadata r.metadata) s := by
    rw [findBuiltMetadata_of_artifact rfl]
    exact fails_findMetadata h
  exact (hfind.bind _).bind _

/-- **A task whose origin breaks fails and writes nothing.** -/
theorem Task.fails_run {settings : Settings} {task : Task} (now : Moment)
    (horigin : (on (task.origin settings) s).1 = .ok path)
    (h : s.openAt path = .ok ⟨bs, some failure⟩) : Fails (task.run settings now) s := by
  cases task with
  | describe t =>
    refine fails_liftM_bind fun r hr => ?_
    rw [origin, hr] at horigin
    obtain rfl : r.origin = path := Except.ok.inj horigin
    exact (fails_findMetadata h).bind _
  | stamp t =>
    refine fails_liftM_bind fun target ht => ?_
    rw [origin, ht] at horigin
    obtain rfl : target.path = path := Except.ok.inj horigin
    exact ((fails_stampFile _ h).bind _).bind _
  | announce t =>
    refine fails_liftM_bind fun solutionDir hs => fails_liftM_bind fun projectDir hp => ?_
    rw [origin, hs, hp] at horigin
    exact ((fails_sonarStampFile _ horigin h).bind _).bind _
  | pack t =>
    refine fails_liftM_bind fun r hr => ?_
    rw [origin, hr] at horigin
    obtain rfl : r.metadata.origin = path := Except.ok.inj horigin
    exact (fails_makePackage h).bind _

/-- **A stream that breaks is never taken for the end of a file**: every pass over it fails, and so
does every task that depends on a file whose stream it is, which then writes nothing. -/
theorem brokenStream_refused (l : Language) (bs : Bytes) (failure : Text) :
    (∃ r fault gs, Source.Refused l.profile bs failure r fault gs) ∧
      ∀ (s : Store) (settings : Settings) (now : Moment) (task : Task) (path : Path),
        (on (task.origin settings) s).1 = .ok path → s.openAt path = .ok ⟨bs, some failure⟩ →
          Fails (task.run settings now) s :=
  ⟨Source.refused l.profile bs failure, fun _ _ now _ _ => Task.fails_run now⟩

/-- A declaration whose second line never comes is not stamped, even with a number that is
wanting. -/
theorem brokenStream_refused_pair :
    let bs := Utf8.encode "CUSTOM-ATTRIBUTE CA-ASSEMBLYVERSION \"*\"\n"
    let file := Path.components "p/Properties/AssemblyInfo.cob"
    let s : Store := { files := [(file, bs)], broken := [file] }
    let task : Task := .stamp { projectDir := some ['p'], language := some "COBOL".toList }
    let now : Moment := ⟨2019, 1, 1, 12, 0⟩
    (∃ r fault gs, Source.Refused Language.cobol.profile bs "broken stream" r fault gs) ∧
      Fails (task.run {} now) s ∧
      (on (task.run {} now) s).1 = .error (.system (.system "broken stream")) := by
  intro bs file s task now
  have horigin : (on (task.origin {}) s).1 = .ok "p/Properties/AssemblyInfo.cob" := by
    decide +kernel
  have hopen : s.openAt "p/Properties/AssemblyInfo.cob" =
      .ok ⟨bs, some "broken stream".toList⟩ := by
    decide +kernel
  obtain ⟨hpasses, htasks⟩ := brokenStream_refused .cobol bs "broken stream"
  exact ⟨hpasses, htasks s {} now task _ horigin hopen, by decide +kernel⟩

end Broken
end Nameplate
