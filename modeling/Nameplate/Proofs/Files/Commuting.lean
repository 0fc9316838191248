/-
# Operations that commute

An operation that reads and then writes one file acts on other files as it did
before, when what it reads has not changed: it gives the same answer and, if
it writes, it writes the same contents to the same file (`Operation.ActsAlike`).
Two operations that act alike after each other as they did before, on
different files, commute (`Session.commute_of_actsAlike`).

Stamping the versions of a project reads its version file only, and writes it
only where there is one. So the search for a properties file, which asks what
files there are but not what they hold, has the same result before and after
(`on_find_put`), and the announcement of a version reads no other file than
the one it finds. When the two files differ, stamping and announcing commute.

Key definitions: `Store.SameFiles`, `Operation.ActsAlike`, `Session.Commute`.
Key theorems: `Session.commute_of_actsAlike`, `Session.stamp_commute_announce`.
-/
import Nameplate.Proofs.Files.Atomicity

namespace Nameplate

namespace Store

/-- The two stores hold the same files, whatever was written in which order, and the same is special
about their paths. -/
structure SameFiles (s s' : Store) : Prop where
  get?_eq : ∀ path, s.get? path = s'.get? path
  directories_eq : s.directories = s'.directories
  unreadable_eq : s.unreadable = s'.unreadable
  readOnly_eq : s.readOnly = s'.readOnly
  broken_eq : s.broken = s'.broken

variable {s : Store} {path other : Path}

theorem SameFiles.refl (s : Store) : s.SameFiles s := ⟨fun _ => rfl, rfl, rfl, rfl, rfl⟩

theorem get?_put_of_eq (s : Store) (content : Bytes)
    (h : Path.components other = Path.components path) :
    (s.put path content).get? other = some content := by
  simp [put, get?, h]

/-- Writes to different files can be made in either order. -/
theorem SameFiles.put_put (s : Store) (content content' : Bytes)
    (h : Path.components path ≠ Path.components other) :
    ((s.put path content).put other content').SameFiles
      ((s.put other content').put path content) := by
  refine ⟨fun file => ?_, rfl, rfl, rfl, rfl⟩
  by_cases hp : Path.components file = Path.components path
  · have ho : Path.components file ≠ Path.components other := fun ho => h (hp.symm.trans ho)
    rw [get?_put_of_ne _ ho, get?_put_of_eq _ _ hp, get?_put_of_eq _ _ hp]
  · by_cases ho : Path.components file = Path.components other
    · rw [get?_put_of_eq _ _ ho, get?_put_of_ne _ hp, get?_put_of_eq _ _ ho]
    · rw [get?_put_of_ne _ ho, get?_put_of_ne _ hp, get?_put_of_ne _ hp, get?_put_of_ne _ ho]

theorem openAt_put_of_ne (s : Store) (content : Bytes)
    (h : Path.components other ≠ Path.components path) :
    (s.put path content).openAt other = s.openAt other := by
  unfold openAt
  rw [get?_put_of_ne content h]
  rfl

/-- Writing a file that is there neither makes nor removes a file. -/
theorem isSome_get?_put (h : (s.get? path).isSome = true) (content : Bytes) (other : Path) :
    ((s.put path content).get? other).isSome = (s.get? other).isSome := by
  by_cases ho : Path.components other = Path.components path
  · have hother : s.get? other = s.get? path := by
      unfold get?
      rw [ho]
    rw [get?_put_of_eq s content ho, hother, h]
    rfl
  · rw [get?_put_of_ne content ho]

end Store

/-! ### What is read -/

open Nameplate.Action

section Reading

variable {s : Store} {path : Path} {content : Bytes} {target : StampTarget} {o : StampOptions}
  {solutionDir projectDir : Path} {version : Text}

/-- Where the search ends depends on which files there are, not on what they hold. -/
theorem on_find (solutionDir projectDir : Path) (s : Store) :
    on (Sonar.find solutionDir projectDir) s =
      (if (s.get? (Path.join solutionDir Sonar.fileName)).isSome then
          .ok (Path.join solutionDir Sonar.fileName)
        else if (s.get? (Path.join projectDir Sonar.fileName)).isSome then
          .ok (Path.join projectDir Sonar.fileName)
        else .error (.project (.notFound (Path.join solutionDir Sonar.fileName))), s) := by
  have hfile (path : Path) : on (FileAccess.isFile path) s = (.ok (s.get? path).isSome, s) := rfl
  unfold Sonar.find
  rw [on_bind, hfile]
  cases (s.get? (Path.join solutionDir Sonar.fileName)).isSome with
  | true => rfl
  | false =>
    simp only [Bool.false_eq_true, if_false]
    rw [on_bind, hfile]
    cases (s.get? (Path.join projectDir Sonar.fileName)).isSome <;> rfl

theorem on_find_put (h : (s.get? path).isSome = true) :
    (on (Sonar.find solutionDir projectDir) (s.put path content)).1 =
      (on (Sonar.find solutionDir projectDir) s).1 := by
  rw [on_find, on_find, Store.isSome_get?_put h, Store.isSome_get?_put h]

/-- Stamping a version file reads no other file. -/
theorem on_stampFile_put (h : Path.components target.path ≠ Path.components path) :
    (on (stampFile target o) (s.put path content)).1 = (on (stampFile target o) s).1 := by
  unfold stampFile
  rw [on_bind, on_bind, on_openFile, on_openFile, Store.openAt_put_of_ne s content h]
  cases s.openAt target.path <;> rfl

theorem isSome_get?_of_stampFile {r : Stamped} (h : (on (stampFile target o) s).1 = .ok r) :
    (s.get? target.path).isSome = true := by
  unfold stampFile at h
  rw [on_bind, on_openFile] at h
  cases ho : s.openAt target.path with
  | ok source => exact Store.isSome_get?_of_openAt ho
  | error reason =>
    rw [ho] at h
    cases h

/-- Stamping a properties file reads no other file than the one that is found. -/
theorem on_sonarStampFile_put (hfile : (s.get? path).isSome = true)
    (h : ∀ found, (on (Sonar.find solutionDir projectDir) s).1 = .ok found →
      Path.components found ≠ Path.components path) :
    (on (Sonar.stampFile solutionDir projectDir version) (s.put path content)).1 =
      (on (Sonar.stampFile solutionDir projectDir version) s).1 := by
  unfold Sonar.stampFile
  rw [on_bind_of_readOnly (readOnly_find _ _), on_bind_of_readOnly (readOnly_find _ _),
    on_find_put hfile]
  cases hf : (on (Sonar.find solutionDir projectDir) s).1 with
  | error e => rfl
  | ok found =>
    simp only
    rw [on_bind, on_bind, on_openFile, on_openFile, Store.openAt_put_of_ne s content (h found hf)]
    cases s.openAt found with
    | error reason => rfl
    | ok source =>
      have hok (f : Text → Failure) : (Except.ok source : Except Text Source).mapError f =
          .ok source := rfl
      simp only [hok]
      cases Sonar.stampSource version source <;> rfl

end Reading

/-! ### Acting alike -/

/-- From either store the operation gives the same answer, and it writes the same contents to the
same file, one of those of which `mayWrite` holds, or nothing. -/
def Operation.ActsAlike (op : Operation) (mayWrite : Path → Prop) (s s' : Store) : Prop :=
  ∃ answer, (op.runOn s = (answer, s) ∧ op.runOn s' = (answer, s')) ∨
    ∃ file content, mayWrite file ∧ op.runOn s = (answer, s.put file content) ∧
      op.runOn s' = (answer, s'.put file content)

/-- One after the other, the operations give the same answers in either order, and they leave the
same files. -/
structure Session.Commute (op op' : Operation) (s : Store) : Prop where
  answers : (steps s [op, op']).map Step.answer = ((steps s [op', op]).map Step.answer).reverse
  files : (final s [op, op']).SameFiles (final s [op', op])

section ActingAlike

variable {α : Type} {x : Action α} {op op' : Operation} {mayWrite mayWrite' : Path → Prop}
  {s s' : Store}

/-- An operation that reads and then writes acts alike where it reads the same. -/
theorem Operation.actsAlike_of_writing (hx : ReadOnly x) (file : α → Path × Text)
    (answer : α → Answer)
    (hop : (op.run : Action Answer) = do
      let a ← x
      writeFile (file a).1 (file a).2
      return answer a)
    (hread : (on x s').1 = (on x s).1) (hmarks : s'.readOnly = s.readOnly)
    (hmay : ∀ a, (on x s).1 = .ok a → mayWrite (file a).1) : op.ActsAlike mayWrite s s' := by
  unfold ActsAlike runOn
  rw [hop, on_bind_of_readOnly hx, on_bind_of_readOnly hx, hread]
  cases hr : (on x s).1 with
  | error e => exact ⟨_, Or.inl ⟨rfl, rfl⟩⟩
  | ok a =>
    simp only [on_bind, on_writeFile, hmarks]
    by_cases hp : Path.components (file a).1 ∈ s.readOnly
    · simp only [if_pos hp]
      exact ⟨_, Or.inl ⟨rfl, rfl⟩⟩
    · simp only [if_neg hp]
      exact ⟨_, Or.inr ⟨(file a).1, _, hmay a hr, rfl, rfl⟩⟩

theorem Operation.actsAlike_of_asking (hx : ReadOnly x) (answer : α → Answer)
    (hop : (op.run : Action Answer) = do
      let a ← x
      return answer a)
    (hread : (on x s').1 = (on x s).1) : op.ActsAlike mayWrite s s' := by
  unfold ActsAlike runOn
  rw [hop, on_bind_of_readOnly hx, on_bind_of_readOnly hx, hread]
  cases (on x s).1 with
  | error e => exact ⟨_, Or.inl ⟨rfl, rfl⟩⟩
  | ok a => exact ⟨_, Or.inl ⟨rfl, rfl⟩⟩

theorem Operation.ActsAlike.answer_eq (h : op.ActsAlike mayWrite s s') :
    (op.runOn s').1 = (op.runOn s).1 := by
  obtain ⟨answer, ⟨h, h'⟩ | ⟨file, content, -, h, h'⟩⟩ := h
  · rw [h, h']
  · rw [h, h']

/-- **Operations that act alike after each other commute**, when they may not write the same file. -/
theorem Session.commute_of_actsAlike (h : op.ActsAlike mayWrite s (op'.runOn s).2)
    (h' : op'.ActsAlike mayWrite' s (op.runOn s).2)
    (hne : ∀ file file', mayWrite file → mayWrite' file' →
      Path.components file ≠ Path.components file') : Commute op op' s := by
  refine ⟨by simp [steps, h.answer_eq, h'.answer_eq], ?_⟩
  have hfinal (p p' : Operation) : final s [p, p'] = (p'.runOn (p.runOn s).2).2 := rfl
  rw [hfinal, hfinal]
  obtain ⟨a, ⟨ho, hafter⟩ | ⟨file, content, hmay, ho, hafter⟩⟩ := h
  · obtain ⟨a', ⟨ho', hafter'⟩ | ⟨file', content', -, ho', hafter'⟩⟩ := h'
    · rw [hafter, hafter', ho, ho']
      exact Store.SameFiles.refl s
    · rw [hafter, hafter', ho, ho']
      exact Store.SameFiles.refl _
  · obtain ⟨a', ⟨ho', hafter'⟩ | ⟨file', content', hmay', ho', hafter'⟩⟩ := h'
    · rw [hafter, hafter', ho, ho']
      exact Store.SameFiles.refl _
    · rw [hafter, hafter', ho, ho']
      exact Store.SameFiles.put_put s content content' (hne file file' hmay hmay')

end ActingAlike

/-! ### Stamping and announcing -/

section Announcing

variable {target : StampTarget} {o : StampOptions} {solutionDir projectDir : Path} {version : Text}
  {s s' : Store}

theorem Operation.stamp_actsAlike (dryRun : Bool)
    (hread : (on (stampFile target o) s').1 = (on (stampFile target o) s).1)
    (hmarks : s'.readOnly = s.readOnly) :
    (Operation.stamp target o dryRun).ActsAlike (· = target.path) s s' := by
  cases dryRun with
  | true =>
    exact actsAlike_of_asking (readOnly_stampFile target o) _ (run_stamp_dryRun target o) hread
  | false =>
    exact actsAlike_of_writing (readOnly_stampFile target o) (fun r => (r.path, r.content)) _
      (run_stamp target o) hread hmarks fun _ hr => path_of_stampFile hr

theorem Operation.announce_actsAlike {mayWrite : Path → Prop}
    (hread : (on (Sonar.stampFile solutionDir projectDir version) s').1 =
      (on (Sonar.stampFile solutionDir projectDir version) s).1)
    (hmarks : s'.readOnly = s.readOnly)
    (hmay : ∀ found, ((Operation.locate solutionDir projectDir).runOn s).1 = .ok (.located found) →
      mayWrite found) :
    (Operation.announce solutionDir projectDir version).ActsAlike mayWrite s s' :=
  actsAlike_of_writing (readOnly_sonarStampFile solutionDir projectDir version)
    (fun found => (found.1, found.2.1)) _ (run_announce solutionDir projectDir version) hread hmarks
    fun _ hf => hmay _ (locate_of_sonarStampFile hf)

/-- What stamping a project may do to the files: nothing, or write the version file, which was there
before. -/
theorem Operation.runOn_stamp_snd (target : StampTarget) (o : StampOptions) (dryRun : Bool)
    (s : Store) :
    ((Operation.stamp target o dryRun).runOn s).2 = s ∨
      (s.get? target.path).isSome = true ∧ ∃ content,
        ((Operation.stamp target o dryRun).runOn s).2 = s.put target.path content := by
  cases dryRun with
  | true => exact Or.inl (readOnly_run rfl s)
  | false =>
    rcases runOn_stamp_cases target o s with ⟨e, he⟩ | ⟨r, hr, -, he⟩
    · exact Or.inl (by rw [he])
    · rw [he, path_of_stampFile hr]
      exact Or.inr ⟨isSome_get?_of_stampFile hr, _, rfl⟩

/-- **Stamping and announcing commute** where the version file is not the properties file that is
located: the answers are the same in either order, be they successes or failures, and so is every
file in the end. -/
theorem Session.stamp_commute_announce (target : StampTarget) (o : StampOptions) (dryRun : Bool)
    (solutionDir projectDir : Path) (version : Text) (s : Store)
    (h : ∀ found, ((Operation.locate solutionDir projectDir).runOn s).1 = .ok (.located found) →
      Path.components found ≠ Path.components target.path) :
    Commute (.stamp target o dryRun) (.announce solutionDir projectDir version) s := by
  have hstamp : (Operation.stamp target o dryRun).ActsAlike (· = target.path) s
      ((Operation.announce solutionDir projectDir version).runOn s).2 := by
    rcases runOn_announce_cases solutionDir projectDir version s with ⟨e, he⟩ | ⟨found, hf, -, he⟩
    · rw [he]
      exact Operation.stamp_actsAlike dryRun rfl rfl
    · have hne := h _ (locate_of_sonarStampFile hf)
      rw [he]
      exact Operation.stamp_actsAlike dryRun (on_stampFile_put hne.symm) rfl
  have hannounce : (Operation.announce solutionDir projectDir version).ActsAlike
      (fun file => Path.components file ≠ Path.components target.path) s
      ((Operation.stamp target o dryRun).runOn s).2 := by
    rcases Operation.runOn_stamp_snd target o dryRun s with he | ⟨hfile, content, he⟩
    · rw [he]
      exact Operation.announce_actsAlike rfl rfl h
    · have hfind : ∀ found, (on (Sonar.find solutionDir projectDir) s).1 = .ok found →
          Path.components found ≠ Path.components target.path := by
        intro found hf
        exact h found (by rw [on_locate, hf]; rfl)
      rw [he]
      exact Operation.announce_actsAlike (on_sonarStampFile_put hfile hfind) rfl h
  refine commute_of_actsAlike hstamp hannounce fun file file' hfile hne => ?_
  rw [hfile]
  exact hne.symm

/-- A solution without a properties file of its own: the one of the project is found before and
after the version file next to it is stamped. -/
theorem Session.stamp_commute_announce_etl :
    let s : Store := { files := [
      (Path.components "EtlInfo.etl", Utf8.encode "EtlVersion=\"1.*\""),
      (Path.components "sonar-project.properties", Utf8.encode "sonar.projectVersion=0\n")] }
    let stamp : Operation :=
      .stamp ⟨[], .etl, none⟩ { versionPart := some ['7'], now := ⟨2019, 1, 1, 12, 0⟩ } false
    let announce : Operation := .announce "solution" [] "1.7.0.0"
    Commute stamp announce s ∧
      (final s [stamp, announce]).get? "EtlInfo.etl" =
        some (Utf8.encode "EtlVersion=\"1.7.0.0\"") ∧
      (final s [stamp, announce]).get? "sonar-project.properties" =
        some (Utf8.encode "sonar.projectVersion=1.7.0.0\n") := by
  intro s stamp announce
  refine ⟨?_, rfl, rfl⟩
  refine stamp_commute_announce _ _ _ _ _ _ s fun found hf => ?_
  have hlocate : ((Operation.locate "solution" []).runOn s).1 =
      .ok (.located "sonar-project.properties") := rfl
  rw [hlocate, Except.ok.injEq, Answer.located.injEq] at hf
  rw [← hf]
  decide

/-- On one and the same file the order matters. -/
example :
    let s : Store := { files := [
      (Path.components "sonar-project.properties",
        Utf8.encode "sonar.projectVersion EtlVersion=\"1.*\"")] }
    let stamp : Operation := .stamp ⟨[], .etl, some "sonar-project.properties".toList⟩
      { versionPart := some ['7'], now := ⟨2019, 1, 1, 12, 0⟩ } false
    let announce : Operation := .announce [] [] "1.7.0.0"
    ((stamp.runOn s).1 ≠ (stamp.runOn (announce.runOn s).2).1) := by
  decide +kernel

end Announcing
end Nameplate
