/-
# Every operation is atomic

An operation of a session either fails and leaves every file as it was, or
does all of what it announces. Operations that only ask, and dry runs, change
no file in either case; one that writes replaces one file, which its answer
names (`Step.Atomic`). A dry run answers what the operation itself would, as
far as that one is allowed to write.

Each operation is brought into the shape of `Action.readThenWrite_cases`
first; whatever can go wrong before the write goes wrong while only reading.
Since each step of a session is atomic from whatever files it finds, a file
that no successful step names is after the session as it was before.

Key definitions: `Step.WritesOnly`, `Step.Atomic`.
Key theorem: `Session.steps_atomic`.
-/
import Nameplate.Proofs.Files.Frame

namespace Nameplate

/-- The step replaced one file and left all others as they were. -/
structure Step.WritesOnly (t : Step) (path : Path) (content : Bytes) : Prop where
  after_eq : t.after = t.before.put path content
  written : t.after.get? path = some content
  kept : ∀ other, Path.components other ≠ Path.components path →
    t.after.get? other = t.before.get? other

/-- What one step of a session may do to the files. -/
structure Step.Atomic (t : Step) : Prop where
  failed : ∀ f, t.answer = .error f → t.after = t.before
  asked : t.operation.writes = false → t.after = t.before
  stamped : ∀ target o a, t.operation = .stamp target o false → t.answer = .ok a →
    ∃ r, a = .stamped r ∧ r.path = target.path ∧
      t.WritesOnly target.path (Utf8.encode r.content)
  announced : ∀ solutionDir projectDir version a,
    t.operation = .announce solutionDir projectDir version → t.answer = .ok a →
    ∃ r content, a = .announced r ∧
      ((Operation.locate solutionDir projectDir).runOn t.before).1 = .ok (.located r.path) ∧
      t.WritesOnly r.path content
  packaged : ∀ request a, t.operation = .package request → t.answer = .ok a →
    ∃ r package, a = .packaged r ∧ (Action.on (buildPackage request) t.before).1 = .ok package ∧
      r.id = package.id ∧ r.path = Path.join request.packageDir (r.id ++ ".nuspec") ∧
      t.WritesOnly r.path (Utf8.encode (package.document ++ ['\n']))
  dryRun : ∀ target o, t.operation = .stamp target o true →
    (Path.components target.path ∉ t.before.readOnly →
      t.answer = ((Operation.stamp target o false).runOn t.before).1) ∧
    ∀ a, ((Operation.stamp target o false).runOn t.before).1 = .ok a → t.answer = .ok a

theorem Step.writesOnly_put (s : Store) (op : Operation) (answer : Except Failure Answer)
    (path : Path) (content : Bytes) :
    Step.WritesOnly ⟨s, op, answer, s.put path content⟩ path content :=
  ⟨rfl, Store.get?_put_self s path content, fun _ h => Store.get?_put_of_ne content h⟩

/-! ### The shape of each operation -/

/-- The step an operation takes from given files. -/
def Operation.stepFrom (op : Operation) (s : Store) : Step :=
  ⟨s, op, (op.runOn s).1, (op.runOn s).2⟩

theorem path_of_stampSource {p : Profile} {o : StampOptions} {path : Path} {source : Source}
    {r : Stamped} (h : stampSource p o path source = .ok r) : r.path = path := by
  unfold stampSource at h
  simp only at h
  split at h
  · simp at h
  · split at h
    · simp at h
    · simp at h
    · simp only [Except.ok.injEq] at h
      rw [← h]

open Nameplate.Action

/-- Stamping reports the file it was asked to stamp. -/
theorem path_of_stampFile {target : StampTarget} {o : StampOptions} {s : Store} {r : Stamped}
    (h : (on (stampFile target o) s).1 = .ok r) : r.path = target.path := by
  unfold stampFile at h
  rw [on_bind_of_readOnly (readOnly_openFile _)] at h
  cases ho : (on (openFile target.path) s).1 with
  | error e => simp [ho] at h
  | ok source =>
    simp only [ho, on_ofExcept] at h
    exact path_of_stampSource h

theorem run_stamp (target : StampTarget) (o : StampOptions) :
    (Operation.run (.stamp target o false) : Action Answer) = do
      let r ← stampFile target o
      writeFile r.path r.content
      return .stamped r := by
  simp [Operation.run, stampProject, writeStamped]

theorem run_stamp_dryRun (target : StampTarget) (o : StampOptions) :
    (Operation.run (.stamp target o true) : Action Answer) = do
      let r ← stampFile target o
      return .stamped r := by
  simp [Operation.run, stampProject]

theorem run_announce (solutionDir projectDir : Path) (version : Text) :
    (Operation.run (.announce solutionDir projectDir version) : Action Answer) = do
      let found ← Sonar.stampFile solutionDir projectDir version
      writeFile found.1 found.2.1
      return .announced ⟨found.1, version, found.2.2⟩ := by
  simp [Operation.run, Sonar.stamp]

theorem run_package (request : PackageRequest) :
    (Operation.run (.package request) : Action Answer) = do
      let package ← buildPackage request
      writeFile (Path.join request.packageDir package.fileName) (package.document ++ ['\n'])
      return .packaged ⟨Path.join request.packageDir package.fileName, package.id, package.version,
        package.files.length, package.dependencies.length⟩ := by
  simp [Operation.run, makePackage]

/-- An operation that is not meant to write does not. -/
theorem readOnly_run {op : Operation} (h : op.writes = false) : ReadOnly op.run := by
  cases op with
  | stamp target o dryRun =>
    cases dryRun with
    | false => simp [Operation.writes] at h
    | true =>
      rw [run_stamp_dryRun]
      exact (readOnly_stampFile target o).bind fun _ => .pure _
  | announce => simp [Operation.writes] at h
  | package => simp [Operation.writes] at h
  | describe request built complete =>
    have hshow : ∀ found : Metadata, ReadOnly (do
        if complete then return Answer.described (← ExceptT.mk (pure found.ensureComplete))
        return .described found : Action Answer) := by
      intro found
      cases complete with
      | true => exact (ReadOnly.ofExcept _).bind fun _ => .pure _
      | false => exact .pure _
    cases built with
    | true => exact (readOnly_findBuiltMetadata request).bind hshow
    | false => exact (readOnly_findMetadata request).bind hshow
  | locate solutionDir projectDir =>
    exact (readOnly_find solutionDir projectDir).bind fun _ => .pure _

/-- The two outcomes of an operation that writes: it fails and leaves the files, or it replaces the
file that was made out while reading. -/
theorem runOn_cases {α : Type} {x : Action α} {op : Operation} (hx : ReadOnly x)
    (file : α → Path × Text) (answer : α → Answer)
    (hop : (op.run : Action Answer) = do
      let a ← x
      writeFile (file a).1 (file a).2
      return answer a) (s : Store) :
    (∃ e, op.runOn s = (.error e, s)) ∨
      ∃ a, (on x s).1 = .ok a ∧ Path.components (file a).1 ∉ s.readOnly ∧
        op.runOn s = (.ok (answer a), s.put (file a).1 (Utf8.encode (file a).2)) := by
  unfold Operation.runOn
  rw [hop]
  exact readThenWrite_cases hx file answer s

theorem runOn_stamp_cases (target : StampTarget) (o : StampOptions) (s : Store) :
    (∃ e, (Operation.stamp target o false).runOn s = (.error e, s)) ∨
      ∃ r, (on (stampFile target o) s).1 = .ok r ∧ Path.components r.path ∉ s.readOnly ∧
        (Operation.stamp target o false).runOn s =
          (.ok (.stamped r), s.put r.path (Utf8.encode r.content)) :=
  runOn_cases (readOnly_stampFile target o) (fun r => (r.path, r.content)) _ (run_stamp target o) s

theorem runOn_announce_cases (solutionDir projectDir : Path) (version : Text) (s : Store) :
    (∃ e, (Operation.announce solutionDir projectDir version).runOn s = (.error e, s)) ∨
      ∃ found, (on (Sonar.stampFile solutionDir projectDir version) s).1 = .ok found ∧
        Path.components found.1 ∉ s.readOnly ∧
        (Operation.announce solutionDir projectDir version).runOn s =
          (.ok (.announced ⟨found.1, version, found.2.2⟩),
            s.put found.1 (Utf8.encode found.2.1)) :=
  runOn_cases (readOnly_sonarStampFile solutionDir projectDir version)
    (fun found => (found.1, found.2.1)) _ (run_announce solutionDir projectDir version) s

theorem runOn_package_cases (request : PackageRequest) (s : Store) :
    (∃ e, (Operation.package request).runOn s = (.error e, s)) ∨
      ∃ package, (on (buildPackage request) s).1 = .ok package ∧
        Path.components (Path.join request.packageDir package.fileName) ∉ s.readOnly ∧
        (Operation.package request).runOn s =
          (.ok (.packaged ⟨Path.join request.packageDir package.fileName, package.id,
              package.version, package.files.length, package.dependencies.length⟩),
            s.put (Path.join request.packageDir package.fileName)
              (Utf8.encode (package.document ++ ['\n']))) :=
  runOn_cases (readOnly_buildPackage request)
    (fun package => (Path.join request.packageDir package.fileName, package.document ++ ['\n'])) _
    (run_package request) s

/-- A failure leaves the files as they were. -/
theorem runOn_of_error {op : Operation} {s : Store} {f : Failure} (h : (op.runOn s).1 = .error f) :
    (op.runOn s).2 = s := by
  have hcases : op.writes = false ∨ (∃ e, op.runOn s = (.error e, s)) ∨
      ∃ a s', op.runOn s = (.ok a, s') := by
    cases op with
    | stamp target o dryRun =>
      cases dryRun with
      | true => exact .inl rfl
      | false =>
        exact .inr ((runOn_stamp_cases target o s).imp_right fun ⟨r, _, _, hr⟩ => ⟨_, _, hr⟩)
    | announce solutionDir projectDir version =>
      exact .inr ((runOn_announce_cases solutionDir projectDir version s).imp_right
        fun ⟨found, _, _, hr⟩ => ⟨_, _, hr⟩)
    | package request =>
      exact .inr ((runOn_package_cases request s).imp_right fun ⟨package, _, _, hr⟩ => ⟨_, _, hr⟩)
    | describe request built complete => exact .inl rfl
    | locate solutionDir projectDir => exact .inl rfl
  rcases hcases with hw | ⟨e, he⟩ | ⟨a, s', ha⟩
  · exact readOnly_run hw s
  · rw [he]
  · rw [ha] at h
    simp at h

/-- What is located is what the search finds. -/
theorem on_locate (solutionDir projectDir : Path) (s : Store) :
    ((Operation.locate solutionDir projectDir).runOn s).1 =
      (on (Sonar.find solutionDir projectDir) s).1.map .located := by
  have hrun : (Operation.locate solutionDir projectDir).runOn s =
      on (Sonar.find solutionDir projectDir >>= fun path => pure (.located path)) s := rfl
  rw [hrun, on_bind_of_readOnly (readOnly_find solutionDir projectDir)]
  cases (on (Sonar.find solutionDir projectDir) s).1 <;> rfl

/-- A properties file that is stamped is the one that is located. -/
theorem locate_of_sonarStampFile {solutionDir projectDir : Path} {version : Text} {s : Store}
    {found : Path × Text × Nat}
    (h : (on (Sonar.stampFile solutionDir projectDir version) s).1 = .ok found) :
    ((Operation.locate solutionDir projectDir).runOn s).1 = .ok (.located found.1) := by
  rw [on_locate]
  unfold Sonar.stampFile at h
  rw [on_bind_of_readOnly (readOnly_find solutionDir projectDir)] at h
  cases hf : (on (Sonar.find solutionDir projectDir) s).1 with
  | error e => simp [hf] at h
  | ok path =>
    simp only [hf] at h ⊢
    rw [on_bind_of_readOnly (readOnly_openFile path)] at h
    cases ho : (on (openFile path) s).1 with
    | error e => simp [ho] at h
    | ok source =>
      simp only [ho] at h
      cases hs : Sonar.stampSource version source with
      | error e => simp [hs] at h
      | ok q =>
        simp only [hs, on_pure, Except.ok.injEq] at h
        rw [← h]
        rfl

/-- A dry run answers what the operation answers where it may write. -/
theorem runOn_dryRun (target : StampTarget) (o : StampOptions) (s : Store)
    (h : Path.components target.path ∉ s.readOnly) :
    ((Operation.stamp target o true).runOn s).1 = ((Operation.stamp target o false).runOn s).1 := by
  unfold Operation.runOn
  rw [run_stamp, run_stamp_dryRun, on_bind_of_readOnly (readOnly_stampFile target o),
    on_bind_of_readOnly (readOnly_stampFile target o)]
  cases hr : (on (stampFile target o) s).1 with
  | error e => rfl
  | ok r =>
    have hp := path_of_stampFile hr
    simp only [on_bind, on_writeFile, hp, if_neg h, on_pure]

/-- **One step is atomic**, from whatever files it finds. -/
theorem Operation.atomic_stepFrom (op : Operation) (s : Store) : (op.stepFrom s).Atomic where
  failed _ h := runOn_of_error h
  asked h := readOnly_run h s
  stamped target o a hop ha := by
    obtain rfl : op = .stamp target o false := hop
    simp only [stepFrom] at ha ⊢
    rcases runOn_stamp_cases target o s with ⟨e, he⟩ | ⟨r, hr, _, he⟩
    · simp [he] at ha
    · have hp := path_of_stampFile hr
      simp only [he, Except.ok.injEq] at ha ⊢
      exact ⟨r, ha.symm, hp, hp ▸ Step.writesOnly_put _ _ _ _ _⟩
  announced solutionDir projectDir version a hop ha := by
    obtain rfl : op = .announce solutionDir projectDir version := hop
    simp only [stepFrom] at ha ⊢
    rcases runOn_announce_cases solutionDir projectDir version s with ⟨e, he⟩ | ⟨found, hf, _, he⟩
    · simp [he] at ha
    · simp only [he, Except.ok.injEq] at ha ⊢
      exact ⟨_, _, ha.symm, locate_of_sonarStampFile hf, Step.writesOnly_put _ _ _ _ _⟩
  packaged request a hop ha := by
    obtain rfl : op = .package request := hop
    simp only [stepFrom] at ha ⊢
    rcases runOn_package_cases request s with ⟨e, he⟩ | ⟨package, hp, _, he⟩
    · simp [he] at ha
    · simp only [he, Except.ok.injEq] at ha ⊢
      exact ⟨_, package, ha.symm, hp, rfl, rfl, Step.writesOnly_put _ _ _ _ _⟩
  dryRun target o hop := by
    obtain rfl : op = .stamp target o true := hop
    simp only [stepFrom]
    refine ⟨runOn_dryRun target o s, fun a ha => ?_⟩
    -- the operation succeeds only where it may write
    rcases runOn_stamp_cases target o s with ⟨e, he⟩ | ⟨r, hr, hw, _⟩
    · simp [he] at ha
    · rw [path_of_stampFile hr] at hw
      rw [runOn_dryRun target o s hw, ha]

namespace Session

theorem exists_stepFrom_of_mem {s : Store} {ops : List Operation} {t : Step} (h : t ∈ steps s ops) :
    ∃ (op : Operation) (s' : Store), t = op.stepFrom s' := by
  induction ops generalizing s with
  | nil => simp [steps] at h
  | cons op ops ih =>
    rcases List.mem_cons.1 h with rfl | h
    · exact ⟨op, s, rfl⟩
    · exact ih h

/-- The step names the file as one it wrote. -/
def Writes (t : Step) (path : Path) : Prop :=
  t.operation.writes = true ∧ ∃ a, t.answer = .ok a ∧ Path.components a.path = Path.components path

/-- A step changes no file but the one it names. -/
theorem get?_of_not_writes (op : Operation) (s : Store) {path : Path}
    (h : ¬ Writes (op.stepFrom s) path) : (op.runOn s).2.get? path = s.get? path := by
  have hat := op.atomic_stepFrom s
  have hafter : (op.stepFrom s).after = (op.runOn s).2 := rfl
  rw [← hafter]
  cases ha : (op.runOn s).1 with
  | error f => rw [hat.failed f ha]; rfl
  | ok a =>
    have hne : op.writes = true → Path.components path ≠ Path.components a.path :=
      fun hw he => h ⟨hw, a, ha, he.symm⟩
    cases op with
    | stamp target o dryRun =>
      cases dryRun with
      | true => rw [hat.asked rfl]; rfl
      | false =>
        obtain ⟨r, rfl, hp, hw⟩ := hat.stamped target o a rfl ha
        exact hw.kept path (hp ▸ hne rfl)
    | announce solutionDir projectDir version =>
      obtain ⟨r, content, rfl, _, hw⟩ := hat.announced solutionDir projectDir version a rfl ha
      exact hw.kept path (hne rfl)
    | package request =>
      obtain ⟨r, package, rfl, _, _, _, hw⟩ := hat.packaged request a rfl ha
      exact hw.kept path (hne rfl)
    | describe request built complete => rw [hat.asked rfl]; rfl
    | locate solutionDir projectDir => rw [hat.asked rfl]; rfl

/-- A file that no step names holds at the end what it held before. -/
theorem get?_final {path : Path} : ∀ {s : Store} {ops : List Operation},
    (∀ t ∈ steps s ops, ¬ Writes t path) → (final s ops).get? path = s.get? path
  | _, [], _ => rfl
  | s, op :: ops, h => by
    have hop := get?_of_not_writes op s (h _ List.mem_cons_self)
    have hops : ∀ t ∈ steps (op.runOn s).2 ops, ¬ Writes t path :=
      fun t ht => h t (List.mem_cons_of_mem _ ht)
    exact (get?_final hops).trans hop

/-- **Sessions are atomic.** Every step of every session is, and what no step names is after the
session as it was before. -/
theorem steps_atomic (s : Store) (ops : List Operation) :
    (∀ t ∈ steps s ops, t.Atomic) ∧
      ∀ path, (∀ t ∈ steps s ops, ¬ Writes t path) → (final s ops).get? path = s.get? path := by
  refine ⟨fun t ht => ?_, fun path h => get?_final h⟩
  obtain ⟨op, s', rfl⟩ := exists_stepFrom_of_mem ht
  exact op.atomic_stepFrom s'

/-- A stamping that finds no file changes nothing, the next one writes the info file, and no other
file is touched. -/
theorem steps_atomic_etl :
    let s : Store := { files := [(Path.components "EtlInfo.etl", Utf8.encode "EtlVersion=\"1.*\"")] }
    let stamp (path : Option Path) : Operation :=
      .stamp ⟨[], .etl, path⟩ { versionPart := some ['7'], now := ⟨2019, 1, 1, 12, 0⟩ } false
    let ops := [stamp (some "Old.etl".toList), stamp none]
    (∀ t ∈ steps s ops, t.Atomic) ∧
      (final s ops).get? "EtlInfo.etl" = some (Utf8.encode "EtlVersion=\"1.7.0.0\"") ∧
      (final s ops).get? "Old.etl" = s.get? "Old.etl" := by
  intro s stamp ops
  have h₁ : ((stamp (some "Old.etl".toList)).runOn s) =
      (.error (.project (.notFound "Old.etl")), s) := rfl
  have h₂ : ((stamp none).runOn s).1 = .ok (.stamped {
      content := "EtlVersion=\"1.7.0.0\""
      version := "1.7.0.0"
      isSemantic := false
      next := ⟨"1.7.0.0", "1.7.0.0-d"⟩
      path := "EtlInfo.etl" }) := rfl
  refine ⟨(steps_atomic s ops).1, rfl, (steps_atomic s ops).2 _ ?_⟩
  intro t ht
  simp only [ops, steps, h₁, List.mem_cons, List.not_mem_nil, or_false] at ht
  rcases ht with rfl | rfl
  · rintro ⟨_, a, ha, _⟩
    simp at ha
  · rintro ⟨_, a, ha, hp⟩
    simp only [h₂, Except.ok.injEq] at ha
    subst ha
    revert hp
    decide

end Session
end Nameplate
