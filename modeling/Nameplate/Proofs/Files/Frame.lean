/-
# What actions leave as it is

An action is `ReadOnly` when no run of it changes a file; whatever is built
from read-only actions is read-only. Finding metadata, stamping without
writing and building a package are.

Every operation that writes has one shape: it reads, and when nothing went
wrong it writes one file as its last act. So there are two outcomes only
(`readThenWrite_cases`): a failure, with the files as before, or success, with
one file replaced.

Key definitions: `Action.ReadOnly`, `PackageReport.Made`.
Key theorems: `run_bind_eq_ok`, `Action.ReadOnly.bind`,
`Action.readThenWrite_cases`, `readOnly_findMetadata`, `readOnly_buildPackage`,
`run_makePackage_made`.
-/
import Nameplate.Session

namespace Nameplate

/-! ### Runs with a state -/

section Runs

variable {ε σ α β : Type}

theorem run_bind (x : ExceptT ε (StateM σ) α) (f : α → ExceptT ε (StateM σ) β) (s : σ) :
    (x >>= f).run.run s =
      match x.run.run s with
      | (.ok a, s') => (f a).run.run s'
      | (.error e, s') => (.error e, s') := by
  have h : (x >>= f).run.run s =
      StateT.run (ExceptT.bindCont f (x.run.run s).1) (x.run.run s).2 := rfl
  rw [h]
  obtain ⟨r, s'⟩ := x.run.run s
  cases r <;> rfl

theorem run_get_bind (f : σ → ExceptT ε (StateM σ) β) (s : σ) :
    (get >>= f).run.run s = (f s).run.run s := rfl

theorem run_ofExcept_bind (e : Except ε α) (f : α → ExceptT ε (StateM σ) β) (s : σ) :
    (ExceptT.mk (pure e) >>= f).run.run s =
      match e with
      | .ok a => (f a).run.run s
      | .error fault => (.error fault, s) := by
  cases e <;> rfl

/-- What succeeds, succeeds step by step. -/
theorem run_bind_eq_ok {x : ExceptT ε (StateM σ) α} {f : α → ExceptT ε (StateM σ) β} {s s' : σ}
    {b : β} (h : (x >>= f).run.run s = (.ok b, s')) :
    ∃ a s₁, x.run.run s = (.ok a, s₁) ∧ (f a).run.run s₁ = (.ok b, s') := by
  rw [run_bind] at h
  rcases hx : x.run.run s with ⟨e | a, s₁⟩
  · rw [hx] at h
    cases h
  · rw [hx] at h
    exact ⟨a, s₁, rfl, h⟩

theorem bind_eq_ok {e : Except ε α} {f : α → Except ε β} {b : β} (h : (e >>= f) = .ok b) :
    ∃ a, e = .ok a ∧ f a = .ok b := by
  cases e with
  | error fault => cases h
  | ok a => exact ⟨a, rfl, h⟩

/-- Queries over a list leave the state as it is when each does. -/
theorem mapM_run_snd {f : α → StateM σ β} (hf : ∀ a s, ((f a).run s).2 = s) :
    ∀ (as : List α) (s : σ), ((as.mapM f).run s).2 = s
  | [], _ => rfl
  | a :: as, s => by
    have ha := hf a s
    rw [List.mapM_cons]
    simp only [StateT.run_bind, StateT.run_pure]
    rcases he : (f a).run s with ⟨b, s'⟩
    rw [he] at ha
    obtain rfl : s' = s := ha
    exact mapM_run_snd hf as s'

end Runs

namespace Action

variable {α β : Type}

/-! ### Running an action -/

@[simp] theorem on_pure (a : α) (s : Store) : on (pure a) s = (.ok a, s) := rfl

@[simp] theorem on_throw (f : Failure) (s : Store) :
    on (throw f : Action α) s = (.error f, s) := rfl

@[simp] theorem on_ofExcept (e : Except Failure α) (s : Store) :
    on (ExceptT.mk (pure e)) s = (e, s) := rfl

theorem on_bind (x : Action α) (f : α → Action β) (s : Store) :
    on (x >>= f) s =
      match on x s with
      | (.ok a, s') => on (f a) s'
      | (.error e, s') => (.error e, s') := by
  unfold on
  rw [run_bind]
  obtain ⟨r, s'⟩ := x.run.run s
  cases r <;> rfl

/-! ### Actions that write nothing -/

/-- The action changes no file, whether it succeeds or fails. -/
def ReadOnly (x : Action α) : Prop := ∀ s, (on x s).2 = s

namespace ReadOnly

theorem pure (a : α) : ReadOnly (Pure.pure a) := fun _ => rfl

theorem throw (f : Failure) : ReadOnly (throw f : Action α) := fun _ => rfl

theorem ofExcept (e : Except Failure α) : ReadOnly (ExceptT.mk (Pure.pure e)) := fun _ => rfl

theorem isFile (path : Path) : ReadOnly (FileAccess.isFile path) := fun _ => rfl

theorem openAt (path : Path) : ReadOnly (FileAccess.openAt path) := fun _ => rfl

theorem bind {x : Action α} {f : α → Action β} (hx : ReadOnly x) (hf : ∀ a, ReadOnly (f a)) :
    ReadOnly (x >>= f) := by
  intro s
  rw [on_bind]
  have h := hx s
  rcases he : on x s with ⟨a | a, s'⟩
  · rw [he] at h
    exact h
  · rw [he] at h
    obtain rfl : s' = s := h
    exact hf a s'

end ReadOnly

/-- After a read-only action the next one meets the same files. -/
theorem on_bind_of_readOnly {x : Action α} (hx : ReadOnly x) (f : α → Action β) (s : Store) :
    on (x >>= f) s =
      match (on x s).1 with
      | .ok a => on (f a) s
      | .error e => (.error e, s) := by
  rw [on_bind]
  have h := hx s
  rcases he : on x s with ⟨a | a, s'⟩
  · rw [he] at h
    obtain rfl : s' = s := h
    rfl
  · rw [he] at h
    obtain rfl : s' = s := h
    rfl

/-! ### Reading, then writing one file -/

theorem on_writeAt (path : Path) (content : Bytes) (s : Store) :
    on (FileAccess.writeAt path content) s =
      match s.writeAt path content with
      | .ok s' => (.ok (.ok ()), s')
      | .error text => (.ok (.error text), s) := by
  have h : on (FileAccess.writeAt path content) s =
      (.ok ((FileAccess.writeAt path content : StateM Store (Except Text Unit)).run s).1,
        ((FileAccess.writeAt path content : StateM Store (Except Text Unit)).run s).2) := rfl
  rw [h]
  simp only [FileAccess.writeAt, StateT.run_bind, StateT.run_get, pure_bind]
  cases s.writeAt path content <;> rfl

theorem on_writeFile (path : Path) (t : Text) (s : Store) :
    on (writeFile path t) s =
      if Path.components path ∈ s.readOnly then (.error (.system (.system "read-only file")), s)
      else (.ok (), s.put path (Utf8.encode t)) := by
  unfold writeFile
  rw [on_bind, on_writeAt]
  by_cases hp : Path.components path ∈ s.readOnly
  · rw [if_pos hp, Store.writeAt, if_pos (by simpa using hp)]
    rfl
  · rw [if_neg hp, Store.writeAt, if_neg (by simpa using hp)]
    rfl

/-- **Two outcomes only.** An action that reads and then writes one file either fails and leaves the
files as they are, or succeeds and replaces that file. -/
theorem readThenWrite_cases {x : Action α} (hx : ReadOnly x) (file : α → Path × Text)
    (answer : α → β) (s : Store) :
    let y : Action β := do
      let a ← x
      writeFile (file a).1 (file a).2
      return answer a
    (∃ e, on y s = (.error e, s)) ∨
      ∃ a, (on x s).1 = .ok a ∧ Path.components (file a).1 ∉ s.readOnly ∧
        on y s = (.ok (answer a), s.put (file a).1 (Utf8.encode (file a).2)) := by
  intro y
  simp only [y, on_bind_of_readOnly hx]
  cases hr : (on x s).1 with
  | error e => exact Or.inl ⟨e, rfl⟩
  | ok a =>
    simp only [on_bind, on_writeFile]
    by_cases hp : Path.components (file a).1 ∈ s.readOnly
    · rw [if_pos hp]
      exact Or.inl ⟨_, rfl⟩
    · rw [if_neg hp]
      exact Or.inr ⟨a, rfl, hp, rfl⟩

end Action

open Nameplate.Action

theorem readOnly_openFile (path : Path) : ReadOnly (openFile path) := by
  refine (ReadOnly.isFile path).bind fun b => ?_
  cases b with
  | false => exact ReadOnly.throw _
  | true =>
    refine (ReadOnly.openAt path).bind fun e => ?_
    cases e with
    | error _ => exact ReadOnly.throw _
    | ok source => exact ReadOnly.pure source

/-- What can be opened is a file. -/
theorem Store.isSome_get?_of_openAt {s : Store} {path : Path} {source : Source}
    (h : s.openAt path = .ok source) : (s.get? path).isSome = true := by
  unfold openAt at h
  split at h
  · cases h
  · split at h
    · cases h
    next content hc => rw [hc]; rfl

/-- A file that cannot be opened counts as not found, whether it is there or not. -/
theorem on_openFile (path : Path) (s : Store) :
    on (openFile path) s =
      ((s.openAt path).mapError fun _ => .project (.notFound path), s) := by
  have hfile : on (FileAccess.isFile path) s = (.ok (s.get? path).isSome, s) := rfl
  have hopen : on (FileAccess.openAt path) s = (.ok (s.openAt path), s) := rfl
  unfold openFile
  rw [on_bind, hfile]
  cases ho : s.openAt path with
  | ok source =>
    rw [ho] at hopen
    simp only [Store.isSome_get?_of_openAt ho, if_true]
    rw [on_bind, hopen]
    rfl
  | error reason =>
    rw [ho] at hopen
    cases (s.get? path).isSome with
    | false => rfl
    | true =>
      simp only [if_true]
      rw [on_bind, hopen]
      rfl

theorem readOnly_scanFile (p : Profile) (path : Path) : ReadOnly (scanFile p path) := by
  refine (readOnly_openFile path).bind fun source => ?_
  cases Record.scan p source with
  | ok record => exact ReadOnly.pure record
  | error _ => exact ReadOnly.throw _

theorem readOnly_readArtifact (artifact : Path) : ReadOnly (readArtifact artifact) := by
  refine ReadOnly.bind ?_ fun mf => (ReadOnly.ofExcept _).bind fun record => ReadOnly.pure _
  refine (readOnly_openFile _).bind fun source => ?_
  cases Manifest.read? source with
  | none => exact ReadOnly.throw _
  | some mf => exact ReadOnly.pure mf

theorem readOnly_findMetadata (r : MetadataRequest) : ReadOnly (findMetadata r) := by
  simp only [findMetadata]
  split
  · exact (readOnly_readArtifact _).bind fun found => ReadOnly.pure _
  · exact (readOnly_scanFile _ _).bind fun record => ReadOnly.pure _

theorem readOnly_findBuiltMetadata (r : MetadataRequest) : ReadOnly (findBuiltMetadata r) := by
  unfold findBuiltMetadata
  split
  · exact (ReadOnly.throw _).bind fun _ => readOnly_findMetadata r
  · exact readOnly_findMetadata r

theorem readOnly_stampFile (target : StampTarget) (o : StampOptions) :
    ReadOnly (stampFile target o) :=
  (readOnly_openFile _).bind fun _ => ReadOnly.ofExcept _

theorem readOnly_find (solutionDir projectDir : Path) :
    ReadOnly (Sonar.find solutionDir projectDir) := by
  unfold Sonar.find
  refine (ReadOnly.isFile _).bind fun b => ?_
  cases b with
  | true => exact ReadOnly.pure _
  | false =>
    refine (ReadOnly.isFile _).bind fun b => ?_
    cases b with
    | true => exact ReadOnly.pure _
    | false => exact ReadOnly.throw _

theorem readOnly_sonarStampFile (solutionDir projectDir : Path) (version : Text) :
    ReadOnly (Sonar.stampFile solutionDir projectDir version) := by
  refine (readOnly_find solutionDir projectDir).bind fun path => ?_
  refine (readOnly_openFile path).bind fun source => ?_
  cases Sonar.stampSource version source with
  | error _ => exact ReadOnly.throw _
  | ok _ => exact ReadOnly.pure _

/-- Placing files leaves the files as they are when asking for a directory does. -/
theorem placeFiles_run_snd {σ : Type} [FileAccess (StateM σ)]
    (h : ∀ path (s : σ), ((FileAccess.isDirectory path : StateM σ Bool).run s).2 = s)
    (packageDir : Path) (overrideDefaultFiles : Bool) (given : List FileEntry) (s : σ) :
    ((placeFiles packageDir overrideDefaultFiles given : StateM σ (List PackedFile)).run s).2 =
      s := by
  unfold placeFiles
  simp only [StateT.run_bind, StateT.run_pure]
  refine mapM_run_snd (fun f s => ?_) given s
  exact h (Path.join packageDir f.src) s

/-- Where an artifact is given, nothing is missing. -/
theorem findBuiltMetadata_of_artifact {m : Type → Type} [Monad m] [FileAccess m]
    {request : MetadataRequest} (h : request.artifact.isNone = false) :
    (findBuiltMetadata request : ExceptT Failure m Metadata) = findMetadata request := by
  unfold findBuiltMetadata
  simp only [h, Bool.and_false, Bool.false_eq_true, if_false]

/-- The metadata that a package is made of. -/
def PackageRequest.metadata (r : PackageRequest) : MetadataRequest where
  projectDir := r.projectDir
  language := r.language
  artifact := some r.outputPath

/-- A package is made of metadata that is found and complete. -/
theorem run_buildPackage_eq_ok {σ : Type} [FileAccess (StateM σ)]
    (h : ∀ path (s : σ), ((FileAccess.isDirectory path : StateM σ Bool).run s).2 = s)
    {r : PackageRequest} {package : Package} {s s' : σ}
    (hbuild : (buildPackage r : ExceptT Failure (StateM σ) Package).run.run s =
      (.ok package, s')) :
    ∃ found files,
      (findBuiltMetadata r.metadata : ExceptT Failure (StateM σ) Metadata).run.run s =
          (.ok found, s') ∧
        found.record.isComplete = true ∧
        package = .ofRecord found.record r.configuration r.dependencies files := by
  obtain ⟨found, s₁, hfind, hrest⟩ := run_bind_eq_ok hbuild
  obtain ⟨complete, s₂, hcomplete, hrest⟩ := run_bind_eq_ok hrest
  obtain ⟨files, s₃, hplace, hret⟩ := run_bind_eq_ok hrest
  obtain ⟨hpackage, rfl⟩ : Except.ok _ = Except.ok package ∧ s₃ = s' := Prod.mk.inj hret
  obtain ⟨hok, rfl⟩ : found.ensureComplete = .ok complete ∧ s₁ = s₂ := Prod.mk.inj hcomplete
  obtain ⟨hfull, rfl⟩ := (found.ensureComplete_eq_ok_iff complete).1 hok
  obtain rfl : s₃ = s₁ := (congrArg Prod.snd hplace).symm.trans
    (placeFiles_run_snd h r.packageDir r.overrideDefaultFiles r.files s₁)
  exact ⟨complete, files, hfind, hfull, (Except.ok.inj hpackage).symm⟩

/-- The package that was made: it was built in the state `s`, and its document was written in the
state `s₁`. -/
structure PackageReport.Made {σ : Type} [FileAccess (StateM σ)] (report : PackageReport)
    (r : PackageRequest) (package : Package) (s s₁ s' : σ) : Prop where
  built : (buildPackage r : ExceptT Failure (StateM σ) Package).run.run s = (.ok package, s₁)
  written :
    (writeFile report.path (package.document ++ ['\n']) : ExceptT Failure (StateM σ) Unit).run.run
      s₁ = (.ok (), s')
  report_eq : report =
    ⟨Path.join r.packageDir package.fileName, package.id, package.version, package.files.length,
      package.dependencies.length⟩

theorem run_makePackage_made {σ : Type} [FileAccess (StateM σ)] {r : PackageRequest}
    {report : PackageReport} {s s' : σ}
    (h : (makePackage r : ExceptT Failure (StateM σ) PackageReport).run.run s =
      (.ok report, s')) :
    ∃ package s₁, report.Made r package s s₁ s' := by
  obtain ⟨package, s₁, hbuild, h⟩ := run_bind_eq_ok h
  obtain ⟨_, s₂, hwrite, h⟩ := run_bind_eq_ok h
  obtain ⟨hreport, rfl⟩ := Prod.mk.inj h
  obtain rfl := Except.ok.inj hreport
  exact ⟨package, s₁, hbuild, hwrite, rfl⟩

theorem readOnly_buildPackage (r : PackageRequest) : ReadOnly (buildPackage r) := by
  refine (readOnly_findBuiltMetadata _).bind fun found => ?_
  refine (ReadOnly.ofExcept _).bind fun found => ?_
  refine ReadOnly.bind ?_ fun files => ReadOnly.pure _
  exact placeFiles_run_snd (fun _ _ => rfl) r.packageDir r.overrideDefaultFiles r.files

end Nameplate
