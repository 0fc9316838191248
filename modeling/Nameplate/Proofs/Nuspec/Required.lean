/-
# What a package needs of its project

An artifact is asked for four values, each of which must be there and not be blank; a
record is complete when none of its four fields is. These are two rules, and they agree:
the record an artifact declares (`Manifest.declared`) is read just when it is complete,
and else the first of its missing fields is the attribute reported
(`Manifest.contents_eq`).

So of an artifact a complete record is read or none, and the refusal of an incomplete
one is never reached (`ends_findMetadata`). In the other languages it is reached; in all
of them, what identifies a package that was made is not blank (`ends_buildPackage`). The
id loses its spaces, but a title that is not blank holds a character which is no space.

Key definitions: `Manifest.declared`, `Manifest.contents`, `Ends`, `Failure.isIncomplete`,
`Package.Identified`.
Key theorems: `Manifest.contents_eq`, `Ends.bind`, `ends_findMetadata`,
`ends_buildPackage`, `makePackage_required`.
-/
import Nameplate.Proofs.Files.Frame
import Nameplate.Proofs.Text.Blank

namespace Nameplate

/-! ### What an artifact declares -/

namespace Manifest

/-- The record of an artifact: its name, two attributes, and the informational version where that is
not blank and the artifact's own where it is. What is absent is empty. -/
def declared (mf : Manifest) : Record :=
  let informational := (mf.attribute? "InformationalVersion").getD []
  { title := mf.name.getD []
    description := (mf.attribute? "Description").getD []
    company := (mf.attribute? "Company").getD []
    version := if Text.isBlank informational then mf.version.getD [] else informational }

/-- What is read of an artifact reported as `origin`: its record and the other attributes. -/
def contents (mf : Manifest) (origin : Path) : Except Failure (Record × ArtifactDetails) := do
  let record ← mf.record origin
  return (record, mf.extras)

theorem draft_eq_declared (mf : Manifest) : mf.draft = mf.declared := by
  have hversion : mf.version?.getD [] = mf.declared.version := by
    unfold version? declared
    cases hinformational : mf.attribute? "InformationalVersion" with
    | none => rfl
    | some v => cases hblank : Text.isBlank v <;> simp [hblank]
  rw [draft, hversion]
  rfl

/-- **An artifact has what is required of it when its record is complete.** -/
theorem contents_eq (mf : Manifest) (origin : Path) :
    mf.contents origin =
      match mf.declared.missing with
      | [] => .ok (mf.declared, mf.extras)
      | name :: _ => .error (.project (.noAttribute name origin)) := by
  rw [contents, record_eq, draft_eq_declared]
  cases mf.declared.missing <;> rfl

end Manifest

/-! ### How a computation ends -/

section Endings

variable {ε σ α β : Type}

/-- In whatever state the computation starts, it ends in a result that is as `ok` says or in a
failure that is as `failed` says. -/
def Ends (ok : α → Prop) (failed : ε → Prop) (x : ExceptT ε (StateM σ) α) : Prop :=
  ∀ s, match (x.run.run s).1 with
    | .ok a => ok a
    | .error e => failed e

variable {ok : α → Prop} {next : β → Prop} {failed : ε → Prop} {x : ExceptT ε (StateM σ) α}

theorem Ends.of_ok (h : Ends ok failed x) {s s' : σ} {a : α} (hrun : x.run.run s = (.ok a, s')) :
    ok a := by
  have hs := h s
  rwa [hrun] at hs

theorem Ends.of_error (h : Ends ok failed x) {s s' : σ} {e : ε}
    (hrun : x.run.run s = (.error e, s')) : failed e := by
  have hs := h s
  rwa [hrun] at hs

theorem Ends.pure {a : α} (h : ok a) : Ends ok failed (Pure.pure a : ExceptT ε (StateM σ) α) :=
  fun _ => h

theorem Ends.throw {e : ε} (h : failed e) :
    Ends ok failed (MonadExcept.throw e : ExceptT ε (StateM σ) α) :=
  fun _ => h

/-- A computation below, which has no failures of its own. -/
theorem Ends.lift (x : StateM σ α) :
    Ends (fun _ => True) failed (ExceptT.lift x : ExceptT ε (StateM σ) α) :=
  fun _ => trivial

theorem Ends.ofExcept {e : Except ε α} (hok : ∀ a, e = .ok a → ok a)
    (hfailed : ∀ fault, e = .error fault → failed fault) :
    Ends ok failed (ExceptT.mk (Pure.pure e) : ExceptT ε (StateM σ) α) := by
  intro s
  cases e with
  | error fault => exact hfailed fault rfl
  | ok a => exact hok a rfl

/-- A sequence ends as its second part does after every result of the first. -/
theorem Ends.bind {f : α → ExceptT ε (StateM σ) β} (hx : Ends ok failed x)
    (hf : ∀ a, ok a → Ends next failed (f a)) : Ends next failed (x >>= f) := by
  intro s
  have hs := hx s
  rw [run_bind]
  rcases hrun : x.run.run s with ⟨e | a, s₁⟩
  · rwa [hrun] at hs
  · rw [hrun] at hs
    exact hf a hs s₁

theorem Ends.mono {ok' : α → Prop} {failed' : ε → Prop} (h : Ends ok failed x)
    (hok : ∀ a, ok a → ok' a) (hfailed : ∀ e, failed e → failed' e) : Ends ok' failed' x := by
  intro s
  have hs := h s
  rcases hrun : (x.run.run s).1 with e | a
  · rw [hrun] at hs
    exact hfailed e hs
  · rw [hrun] at hs
    exact hok a hs

end Endings

/-! ### Finding metadata -/

/-- Whether it is the failure of metadata that was found and lacks fields. -/
def Failure.isIncomplete : Failure → Bool
  | .project (.incomplete _ _) => true
  | _ => false

section Finding

variable {σ : Type} [FileAccess (StateM σ)]

theorem ends_openFile (path : Path) :
    Ends (fun _ => True) (fun e => e.isIncomplete = false)
      (openFile path : ExceptT Failure (StateM σ) Source) := by
  refine (Ends.lift _).bind fun isFile _ => ?_
  cases isFile with
  | false => exact .throw rfl
  | true =>
    refine (Ends.lift _).bind fun opened _ => ?_
    cases opened with
    | error reason => exact .throw rfl
    | ok source => exact .pure trivial

theorem ends_readManifest (artifact : Path) :
    Ends (fun _ => True) (fun e => e.isIncomplete = false)
      (readManifest artifact : ExceptT Failure (StateM σ) Manifest) := by
  refine (ends_openFile _).bind fun source _ => ?_
  cases Manifest.read? source with
  | some mf => exact .pure trivial
  | none => exact .throw rfl

theorem ends_scanFile (p : Profile) (path : Path) :
    Ends (fun _ => True) (fun e => e.isIncomplete = false)
      (scanFile p path : ExceptT Failure (StateM σ) Record) := by
  refine (ends_openFile _).bind fun source _ => ?_
  cases Record.scan p source with
  | ok record => exact .pure trivial
  | error fault => exact .throw rfl

/-- An artifact is read as its manifest says. -/
theorem readArtifact_eq (artifact : Path) :
    (readArtifact artifact : ExceptT Failure (StateM σ) (Record × ArtifactDetails)) =
      readManifest artifact >>= fun mf => ExceptT.mk (pure (mf.contents artifact)) := by
  unfold readArtifact
  refine congrArg (readManifest artifact >>= ·) (funext fun mf => ?_)
  unfold Manifest.contents
  cases mf.record artifact <;> rfl

/-- Of an artifact a complete record is read or none. -/
theorem ends_readArtifact (artifact : Path) :
    Ends (fun found => found.1.isComplete = true) (fun e => e.isIncomplete = false)
      (readArtifact artifact : ExceptT Failure (StateM σ) (Record × ArtifactDetails)) := by
  rw [readArtifact_eq]
  refine (ends_readManifest artifact).bind fun mf _ => ?_
  rw [mf.contents_eq artifact]
  cases hmissing : mf.declared.missing with
  | nil => exact .pure (by rw [Record.isComplete, hmissing]; rfl)
  | cons name rest => exact .throw rfl

/-- No search for metadata ends with a file that lacks fields, and what is found in an artifact
lacks none. -/
theorem ends_findMetadata (r : MetadataRequest) :
    Ends
      (fun found => r.language.profile.compiled = true → r.artifact.isSome = true →
        found.record.isComplete = true)
      (fun e => e.isIncomplete = false)
      (findMetadata r : ExceptT Failure (StateM σ) Metadata) := by
  unfold findMetadata
  cases hcompiled : r.language.profile.compiled with
  | false =>
    simp only [hcompiled]
    refine (ends_scanFile _ _).bind fun record _ => .pure ?_
    intro h
    cases h
  | true =>
    cases hartifact : r.artifact with
    | none =>
      simp only [hcompiled]
      refine (ends_scanFile _ _).bind fun record _ => .pure ?_
      intro _ h
      cases h
    | some artifact =>
      simp only [hcompiled]
      refine (ends_readArtifact artifact).bind fun found hfull => .pure ?_
      intro _ _
      exact hfull

end Finding

/-! ### What identifies a package -/

/-- A package whose document tells what it is. -/
structure Package.Identified (p : Package) : Prop where
  id : Text.isBlank p.id = false
  description : Text.isBlank p.description = false
  authors : Text.isBlank p.authors = false
  version : Text.isBlank p.version = false

/-- An id keeps the characters of its title that are no spaces. -/
theorem Package.isBlank_idFor {title : Text} (h : Text.isBlank title = false)
    (configuration : Option Text) : Text.isBlank (idFor title configuration) = false := by
  obtain ⟨c, hc, hchar⟩ := Text.exists_of_isBlank_eq_false h
  have hspace : c ≠ ' ' := by
    rintro rfl
    exact absurd hchar (by decide)
  refine Text.isBlank_eq_false_of_mem (List.mem_filter.2 ⟨?_, by simpa using hspace⟩) hchar
  cases configuration.bind Text.nonBlank? with
  | none => exact hc
  | some given => exact List.mem_append_left _ hc

/-- A complete record identifies its package. -/
theorem Package.identified_ofRecord {r : Record} (h : r.isComplete = true)
    (configuration : Option Text) (dependencies : List Dependency) (files : List PackedFile) :
    (ofRecord r configuration dependencies files).Identified := by
  have hfields := r.isComplete_iff.1 h
  exact {
    id := isBlank_idFor (hfields ("Title", r.title) (by simp [Record.fields])) configuration
    description := hfields ("Description", r.description) (by simp [Record.fields])
    authors := hfields ("Company", r.company) (by simp [Record.fields])
    version := hfields ("Version", r.version) (by simp [Record.fields]) }

/-! ### Making a package -/

section Making

variable {σ : Type} [FileAccess (StateM σ)]

/-- **A package that is built is identified, and where the language is compiled the building never
ends with a file that lacks fields.** -/
theorem ends_buildPackage (r : PackageRequest) :
    Ends Package.Identified (fun e => r.language.profile.compiled = true → e.isIncomplete = false)
      (buildPackage r : ExceptT Failure (StateM σ) Package) := by
  have hfind : Ends
      (fun found => r.language.profile.compiled = true → found.record.isComplete = true)
      (fun e => r.language.profile.compiled = true → e.isIncomplete = false)
      (findBuiltMetadata r.metadata : ExceptT Failure (StateM σ) Metadata) := by
    rw [findBuiltMetadata_of_artifact rfl]
    exact (ends_findMetadata r.metadata).mono (fun found h hcompiled => h hcompiled rfl)
      fun e h _ => h
  refine hfind.bind fun found hfull => ?_
  -- What was found is refused only if a field is missing, so never in a compiled language.
  have hcomplete : Ends (fun found => found.record.isComplete = true)
      (fun e => r.language.profile.compiled = true → e.isIncomplete = false)
      (ExceptT.mk (pure found.ensureComplete) : ExceptT Failure (StateM σ) Metadata) := by
    refine .ofExcept (fun found' h => ?_) fun fault h hcompiled => ?_
    · obtain ⟨hok, rfl⟩ := (found.ensureComplete_eq_ok_iff found').1 h
      exact hok
    · rw [(found.ensureComplete_eq_ok_iff found).2 ⟨hfull hcompiled, rfl⟩] at h
      cases h
  refine hcomplete.bind fun found hfull => (Ends.lift _).bind fun files _ => .pure ?_
  exact Package.identified_ofRecord hfull _ _ _

theorem ends_writeFile (path : Path) (content : Text) :
    Ends (fun _ => True) (fun e => e.isIncomplete = false)
      (writeFile path content : ExceptT Failure (StateM σ) Unit) := by
  refine (Ends.lift _).bind fun written _ => ?_
  cases written with
  | ok _ => exact .pure trivial
  | error reason => exact .throw rfl

theorem ends_makePackage (r : PackageRequest) :
    Ends (fun _ => True) (fun e => r.language.profile.compiled = true → e.isIncomplete = false)
      (makePackage r : ExceptT Failure (StateM σ) PackageReport) := by
  refine (ends_buildPackage r).bind fun package _ => ?_
  refine .bind ((ends_writeFile _ _).mono (fun _ h => h) fun _ h _ => h) fun _ _ => ?_
  exact .pure trivial

/-- **What an artifact is required to have is what a package needs of it.** The same record decides
of both, so a package of a compiled language is never refused for a record that lacks fields; and
in every language a package that was made is identified. -/
theorem makePackage_required :
    (∀ artifact : Path,
      (readArtifact artifact : ExceptT Failure (StateM σ) (Record × ArtifactDetails)) =
        readManifest artifact >>= fun mf => ExceptT.mk (pure (mf.contents artifact))) ∧
    (∀ (mf : Manifest) (origin : Path),
      let copied (key : Text) : Text := (mf.attribute? key).getD []
      mf.contents origin =
        match mf.declared.missing with
        | [] => .ok (mf.declared, {
            configuration := copied "Configuration"
            product := copied "Product"
            copyright := copied "Copyright"
            trademark := copied "Trademark"
            culture := copied "Culture" })
        | name :: _ => .error (.project (.noAttribute name origin))) ∧
    ∀ (r : PackageRequest) (s s' : σ),
      (r.language = .csharp ∨ r.language = .visualBasic → ∀ path missing,
        (makePackage r : ExceptT Failure (StateM σ) PackageReport).run.run s ≠
          (.error (.project (.incomplete path missing)), s')) ∧
      ∀ report, (makePackage r : ExceptT Failure (StateM σ) PackageReport).run.run s =
          (.ok report, s') →
        ∃ package s₁, report.Made r package s s₁ s' ∧ package.Identified := by
  refine ⟨readArtifact_eq, Manifest.contents_eq, fun r s s' => ⟨?_, fun report hrun => ?_⟩⟩
  · intro hlanguage path missing hrun
    have hcompiled : r.language.profile.compiled = true := by
      rcases hlanguage with h | h <;> rw [h] <;> rfl
    cases (ends_makePackage r).of_error hrun hcompiled
  · obtain ⟨package, s₁, hmade⟩ := run_makePackage_made hrun
    exact ⟨package, s₁, hmade, (ends_buildPackage r).of_ok hmade.built⟩

end Making

/-- A package of an artifact whose informational version is blank, and none of an artifact without
a company. -/
theorem makePackage_required_manifest :
    let r : PackageRequest :=
      { packageDir := "out", projectDir := [], outputPath := ['b'], language := .csharp }
    let store (attributes : Text) : Store := {
      files := [(Path.components "b.json",
        Utf8.encode ("[\"My App\",\"1.0\",\x7b" ++ attributes ++ "\x7d]"))] }
    let full := store "\"Description\":\"d\",\"Company\":\"c\",\"InformationalVersion\":\" \""
    let partly := store "\"Description\":\"d\",\"Company\":\"\""
    (∃ report package s₁ s', Action.on (makePackage r) full = (.ok report, s') ∧
      report.id = "MyApp" ∧ report.Made r package full s₁ s' ∧ package.Identified) ∧
    ∀ path missing s', Action.on (makePackage r) partly ≠
      (.error (.project (.incomplete path missing)), s') := by
  intro r store full partly
  have hanswer : (Action.on (makePackage r) full).1 =
      .ok ⟨"out/MyApp.nuspec", "MyApp", "1.0", 10, 0⟩ := by
    decide +kernel
  rcases hrun : Action.on (makePackage r) full with ⟨answer, s'⟩
  rw [hrun] at hanswer
  obtain rfl : answer = _ := hanswer
  obtain ⟨package, s₁, hmade, hidentified⟩ := (makePackage_required.2.2 r full s').2 _ hrun
  refine ⟨⟨_, package, s₁, s', rfl, rfl, hmade, hidentified⟩, fun path missing s' => ?_⟩
  exact (makePackage_required.2.2 r partly s').1 (.inl rfl) path missing

end Nameplate
