/-
# Packing and describing the same project

Making a package and describing a project take the project directory and the
language from the same flags and settings, but not the info file: a package is
always made from the language's own info file, while a description is of the
file the settings name, where they name one. So the two may speak of different
files (`PackTask.run_described_overridden`).

Where the settings send nobody elsewhere, and the language is not compiled,
both scan the same file: the settings name none, or their path leads to the
language's own, however it is written. What one finds the other finds, for a
scan depends on that file alone and the package document is written to another
place. So whenever a package is made, describing the project succeeds, before
and after, and the package is made of the very record it shows
(`PackTask.run_described`).

Key definition: `PackTask.Agrees`.
Key theorem: `PackTask.run_described`.
-/
import Nameplate.Proofs.Files.Writing
import Nameplate.Task.Describe
import Nameplate.Task.Pack

namespace Nameplate

/-- The outcome of an action over a tree, and the tree after it. -/
def Tree.run {α : Type} (t : Tree) (x : ExceptT Failure (StateM Tree) α) :
    Except Failure α × Tree := x.run.run t

/-! ### Finding metadata in a tree -/

section Finding

variable {t t' : Tree} {p : Profile} {path : Path} {record : Record} {found : Metadata}
  {r : MetadataRequest}

theorem run_openFile (path : Path) (t : Tree) :
    t.run (openFile path) =
      match t.at? path with
      | .ok (.file content) => (.ok ⟨content, none⟩, t)
      | _ => (.error (.project (.notFound path)), t) := by
  have hfile : t.run (FileAccess.isFile path) = (.ok (t.isFile path), t) := rfl
  have hopen : t.run (FileAccess.openAt path) =
    (.ok (((t.read path).map (⟨·, none⟩)).mapError Tree.Fault.message), t) := rfl
  unfold Tree.run openFile at *
  rw [run_bind, hfile]
  unfold Tree.isFile Tree.read at *
  cases hat : t.at? path with
  | error fault => rfl
  | ok node =>
    rw [hat] at hopen
    cases node with
    | directory => rfl
    | file content =>
      simp only [if_true]
      rw [run_bind, hopen]
      rfl

/-- A scan succeeds where a file is at the path whose contents can be scanned. It depends on
nothing else, and it leaves the tree as it is. -/
theorem run_scanFile_eq_ok_iff :
    t.run (scanFile p path) = (.ok record, t') ↔
      t' = t ∧ ∃ content, t.at? path = .ok (.file content) ∧
        Record.scan p ⟨content, none⟩ = .ok record := by
  have hopen := run_openFile path t
  unfold Tree.run scanFile at *
  rw [run_bind, hopen]
  cases t.at? path with
  | error fault => simp
  | ok node =>
    cases node with
    | directory => simp
    | file content =>
      simp only [Except.ok.injEq, Node.file.injEq, exists_eq_left']
      cases Record.scan p ⟨content, none⟩ with
      | error fault =>
        refine iff_of_false (fun h => ?_) (by simp)
        cases h
      | ok scanned =>
        show (Except.ok scanned, t) = (Except.ok record, t') ↔ _
        rw [Prod.mk.injEq, and_comm, eq_comm (a := t), Except.ok.injEq, Except.ok.injEq]

/-- Metadata is found in the same way, where the language is not compiled. -/
theorem run_findMetadata_eq_ok_iff (h : r.language.profile.compiled = false) :
    t.run (findMetadata r) = (.ok found, t') ↔
      t' = t ∧ ∃ content record,
        t.at? (r.language.profile.fileIn r.projectDir r.infoPath) = .ok (.file content) ∧
          Record.scan r.language.profile ⟨content, none⟩ = .ok record ∧
            found = ⟨r.language.profile.fileIn r.projectDir r.infoPath, record, none⟩ := by
  have hfind : (findMetadata r : ExceptT Failure (StateM Tree) Metadata) = (do
      let path := r.language.profile.fileIn r.projectDir r.infoPath
      let record ← scanFile r.language.profile path
      return ⟨path, record, none⟩) := by
    simp only [findMetadata, h]
  rw [hfind]
  constructor
  · intro hrun
    obtain ⟨record, t₁, hscan, hret⟩ := run_bind_eq_ok hrun
    obtain ⟨rfl, content, hat, hok⟩ := run_scanFile_eq_ok_iff.1 hscan
    cases hret
    exact ⟨rfl, content, record, hat, hok, rfl⟩
  · rintro ⟨rfl, content, record, hat, hok, rfl⟩
    have hscan := run_scanFile_eq_ok_iff.2 ⟨rfl, content, hat, hok⟩
    unfold Tree.run at *
    rw [run_bind, hscan]
    rfl

end Finding

/-! ### Where an info file lies -/

/-- The name of an info file does not end as that of a package document, where the language is not
compiled. -/
theorem Language.endsIn_infoFileAt {l : Language} (h : l.profile.compiled = false) (dir : Path) :
    ∃ c, Tree.EndsIn (l.profile.infoFileAt dir) c ∧ c ≠ 'c' := by
  have hpath : ∃ c, Tree.EndsIn l.profile.infoFilePath c ∧ c ≠ 'c' := by
    cases l with
    | csharp | visualBasic => cases h
    | tsql => exact ⟨'b', ⟨by decide, by decide, by decide⟩, by decide⟩
    | etl => exact ⟨'l', ⟨by decide, by decide, by decide⟩, by decide⟩
    | cobol => exact ⟨'b', ⟨by decide, by decide, by decide⟩, by decide⟩
  obtain ⟨c, hc, hne⟩ := hpath
  exact ⟨c, hc.join dir, hne⟩

theorem Package.endsIn_path (dir : Path) (package : Package) :
    Tree.EndsIn (Path.join dir package.fileName) 'c' := by
  have hname : package.fileName.getLast? = some 'c' := by
    unfold fileName
    rw [List.getLast?_append]
    rfl
  exact Tree.EndsIn.join ⟨hname, by decide, by decide⟩ dir

/-- A package document is written to another place than the info file, which is there before and
after, by whatever path it is named. -/
theorem Package.at?_infoFile_of_write {l : Language} {dir packageDir named : Path} {package : Package}
    {before after : Tree} {document content : Bytes} (hc : l.profile.compiled = false)
    (hwrite : (Tree.write (Path.join packageDir package.fileName) document).run.run before =
      (.ok (), after))
    (hplace : before.locate named = before.locate (l.profile.infoFileAt dir))
    (hat : before.at? (l.profile.infoFileAt dir) = .ok (.file content)) :
    ∀ tree ∈ [before, after], tree.at? named = .ok (.file content) := by
  obtain ⟨c, hends, hne⟩ := Language.endsIn_infoFileAt hc dir
  have hafter := Tree.at?_of_write_of_ne (Package.endsIn_path _ _) hends hne hwrite hat
  have hplaceAfter : after.locate named = after.locate (l.profile.infoFileAt dir) := by
    obtain ⟨names, hnames, -⟩ := Tree.at?_eq_ok_iff.1 hat
    rw [Tree.locate_of_write hwrite hnames, Tree.locate_of_write hwrite (hplace.trans hnames)]
  intro tree htree
  rcases List.mem_cons.1 htree with rfl | htree
  · exact (Tree.at?_eq_of_locate_eq hplace).trans hat
  · obtain rfl := List.mem_singleton.1 htree
    exact (Tree.at?_eq_of_locate_eq hplaceAfter).trans hafter

/-! ### Making a package in a tree -/

section Packing

variable {t t' : Tree} {r : PackageRequest} {report : PackageReport}

theorem run_writeFile_eq_ok {path : Path} {text : Text} {u : Unit}
    (h : t.run (writeFile path text) = (.ok u, t')) :
    (Tree.write path (Utf8.encode text)).run.run t = (.ok (), t') := by
  have hwrite : t.run (FileAccess.writeAt path (Utf8.encode text)) =
      (.ok (((Tree.write path (Utf8.encode text)).run.run t).1.mapError Tree.Fault.message),
        ((Tree.write path (Utf8.encode text)).run.run t).2) := rfl
  unfold Tree.run writeFile at *
  rw [run_bind, hwrite] at h
  rcases hr : (Tree.write path (Utf8.encode text)).run.run t with ⟨fault | done, t₁⟩
  · rw [hr] at h
    cases h
  · rw [hr] at h
    cases h
    rfl

/-- A package is made of metadata that is found and complete, and its document is written. -/
theorem run_makePackage_eq_ok (h : t.run (makePackage r) = (.ok report, t')) :
    ∃ found t₁ files,
      let package := Package.ofRecord found.record r.configuration r.dependencies files
      let path := Path.join r.packageDir package.fileName
      t.run (findMetadata
        { projectDir := r.projectDir, language := r.language, artifact := some r.outputPath }) =
          (.ok found, t₁) ∧
        found.record.isComplete = true ∧
        (Tree.write path (Utf8.encode (package.document ++ ['\n']))).run.run t₁ = (.ok (), t') ∧
        report = ⟨path, package.id, package.version, package.files.length,
          package.dependencies.length⟩ := by
  obtain ⟨package, t₁, hbuild, hwrite, rfl⟩ := run_makePackage_made h
  obtain ⟨found, files, hfind, hfull, rfl⟩ := run_buildPackage_eq_ok (fun _ _ => rfl) hbuild
  rw [findBuiltMetadata_of_artifact rfl] at hfind
  exact ⟨found, t₁, files, hfind, hfull, run_writeFile_eq_ok hwrite, rfl⟩

end Packing

/-! ### The two tasks -/

/-- The package a task has made is of the project that describing it shows. -/
structure PackTask.Agrees (t : PackTask) (s : Settings) (l : Language) (before after : Tree)
    (out : Output) (found : Metadata) : Prop where
  /-- Describing the same project succeeds, before and after, and shows what was found. -/
  shown : ∀ d : DescribeTask, d.projectDir = t.projectDir → d.language = t.language →
    d.infoPath = none → (d.output l found).failure = none ∧
      ∀ tree ∈ [before, after], tree.run (d.run s) = (.ok (d.output l found), tree)
  /-- The package that is written, and the one that is told, are of the record found. -/
  packed : ∃ request files, t.request s = .ok request ∧
    let package := Package.ofRecord found.record request.configuration request.dependencies files
    let path := Path.join request.packageDir package.fileName
    let told : PackageReport :=
      ⟨path, package.id, package.version, package.files.length, package.dependencies.length⟩
    after.at? path = .ok (.file (Utf8.encode (package.document ++ ['\n']))) ∧
      out.text =
        if t.json then Output.json (PackTask.report told) else Output.lines (PackTask.summary told)

theorem PackTask.request_eq_ok {s : Settings} {t : PackTask} {r : PackageRequest}
    (h : t.request s = .ok r) :
    s.projectDir t.projectDir = .ok r.projectDir ∧ s.language t.language = .ok r.language := by
  unfold PackTask.request at h
  obtain ⟨packageDir, -, h⟩ := bind_eq_ok h
  obtain ⟨projectDir, hdir, h⟩ := bind_eq_ok h
  obtain ⟨outputPath, -, h⟩ := bind_eq_ok h
  obtain ⟨language, hlang, h⟩ := bind_eq_ok h
  cases h
  exact ⟨hdir, hlang⟩

theorem DescribeTask.failure_output {d : DescribeTask} {l : Language} {found : Metadata}
    (h : found.record.isComplete = true) : (d.output l found).failure = none := by
  unfold output
  rw [(found.ensureComplete_eq_ok_iff found).2 ⟨h, rfl⟩]

/-- Describing a project shows the metadata that is found. -/
theorem DescribeTask.run_eq_ok {s : Settings} {d : DescribeTask} {l : Language} {dir : Path}
    {tree : Tree} {found : Metadata} (hdir : s.projectDir d.projectDir = .ok dir)
    (hlang : s.language d.language = .ok l)
    (hfind : tree.run (findMetadata ⟨dir, l, s.infoPath d.infoPath, d.artifact⟩) =
      (.ok found, tree)) :
    tree.run (d.run s) = (.ok (d.output l found), tree) := by
  have hrequest : d.request s = .ok ⟨dir, l, s.infoPath d.infoPath, d.artifact⟩ := by
    unfold request
    rw [hdir, hlang]
    rfl
  have hasked : tree.run (liftM (d.request s)) =
      (.ok ⟨dir, l, s.infoPath d.infoPath, d.artifact⟩, tree) := by
    rw [hrequest]
    rfl
  unfold Tree.run DescribeTask.run at *
  rw [run_bind, hasked]
  simp only
  rw [run_bind, hfind]
  rfl

/-- **Whoever packs a project can describe it, and packs what the description shows.** The settings
may name an info file only if that is the language's own, however they write its path. -/
theorem PackTask.run_described {s : Settings} {t : PackTask} {l : Language} {before after : Tree}
    {out : Output} (hlang : s.language t.language = .ok l) (hc : l.profile.compiled = false)
    (hown : ∀ dir, s.projectDir t.projectDir = .ok dir →
      before.locate (l.profile.fileIn dir s.project.infoPath) =
        before.locate (l.profile.infoFileAt dir))
    (h : before.run (t.run s) = (.ok out, after)) :
    ∃ found, t.Agrees s l before after out found := by
  obtain ⟨request, t₁, hasked, hrest⟩ := run_bind_eq_ok h
  obtain ⟨told, t₂, hmake, hret⟩ := run_bind_eq_ok hrest
  obtain ⟨hrequest, rfl⟩ : t.request s = .ok request ∧ before = t₁ := Prod.mk.inj hasked
  obtain ⟨hout, rfl⟩ : Except.ok _ = Except.ok out ∧ t₂ = after := Prod.mk.inj hret
  obtain ⟨found, t₁, files, hfind, hfull, hwrite, rfl⟩ := run_makePackage_eq_ok hmake
  obtain ⟨hdir, hl⟩ := PackTask.request_eq_ok hrequest
  obtain rfl : request.language = l := Except.ok.inj (hl.symm.trans hlang)
  obtain ⟨rfl, content, record, hat, hscan, rfl⟩ := (run_findMetadata_eq_ok_iff hc).1 hfind
  have hshown := Package.at?_infoFile_of_write hc hwrite (hown _ hdir) hat
  let named := request.language.profile.fileIn request.projectDir s.project.infoPath
  refine ⟨⟨named, record, none⟩, ⟨fun d hd hdl hdi => ?_, ?_⟩⟩
  · refine ⟨DescribeTask.failure_output hfull, fun tree htree => ?_⟩
    have hfile : s.infoPath d.infoPath = s.project.infoPath := by
      rw [hdi, Settings.infoPath, Option.none_or]
    refine DescribeTask.run_eq_ok (hd ▸ hdir) (hdl ▸ hlang) ?_
    rw [hfile]
    exact (run_findMetadata_eq_ok_iff hc).2 ⟨rfl, content, record, hshown tree htree, hscan, rfl⟩
  · refine ⟨request, files, hrequest, Tree.at?_of_write hwrite, ?_⟩
    rw [← Except.ok.inj hout]

/-- A project with two info files. -/
def Tree.twoInfos : Tree where
  nodes := [(["p"], .directory),
    (["p", "EtlInfo.etl"], .file (Utf8.encode
      "EtlTitle=\"A\"\nEtlDescription=\"d\"\nEtlCompany=\"c\"\nEtlVersion=\"1.0\"")),
    (["p", "Other.etl"], .file (Utf8.encode
      "EtlTitle=\"B\"\nEtlDescription=\"d\"\nEtlCompany=\"c\"\nEtlVersion=\"2.0\""))]

/-- The settings of that project, with the info file they name. -/
def Settings.ofTwoInfos (infoPath : Option Path) : Settings where
  project := { dir := some ['p'], language := some "ETL".toList, infoPath }
  package := { packageDir := some ['o'], outputPath := some ['b'], overrideDefaultFiles := true }

/-- What is told of the package of the first info file. -/
def Output.firstPackage : Output where
  text := Output.lines (PackTask.summary ⟨"o/A.nuspec", ['A'], "1.0", 0, 0⟩)

/-- Settings may name the language's own info file, also by another path. -/
theorem PackTask.run_described_own :
    let s := Settings.ofTwoInfos (some "../p/./EtlInfo.etl".toList)
    s.check = .ok () ∧ ∃ after found,
      Tree.twoInfos.run (({} : PackTask).run s) = (.ok Output.firstPackage, after) ∧
        ({} : PackTask).Agrees s .etl Tree.twoInfos after Output.firstPackage found := by
  intro s
  have hcheck : s.check = .ok () := by decide
  have hout : (Tree.twoInfos.run (({} : PackTask).run s)).1 = .ok Output.firstPackage := by
    decide +kernel
  rcases h : Tree.twoInfos.run (({} : PackTask).run s) with ⟨answer, after⟩
  rw [h] at hout
  obtain rfl : answer = .ok Output.firstPackage := hout
  have hdir : s.projectDir none = .ok ['p'] := by decide
  have hown : ∀ dir, s.projectDir none = .ok dir →
      Tree.twoInfos.locate (Language.etl.profile.fileIn dir s.project.infoPath) =
        Tree.twoInfos.locate (Language.etl.profile.infoFileAt dir) := by
    intro dir h
    obtain rfl : ['p'] = dir := Except.ok.inj (hdir.symm.trans h)
    decide +kernel
  obtain ⟨found, hagrees⟩ := PackTask.run_described (by decide) rfl hown h
  exact ⟨hcheck, after, found, rfl, hagrees⟩

/-- A package is made of one record while describing the project shows another, or fails, when the
settings name another info file. -/
theorem PackTask.run_described_overridden :
    let other := Settings.ofTwoInfos (some "Other.etl".toList)
    let gone := Settings.ofTwoInfos (some "Gone.etl".toList)
    (other.check = .ok () ∧ gone.check = .ok ()) ∧
      (Tree.twoInfos.run (({} : PackTask).run other)).1 = .ok Output.firstPackage ∧
      Tree.twoInfos.run (({} : DescribeTask).run other) =
        (.ok (({} : DescribeTask).output .etl
          ⟨"p/Other.etl", ⟨['B'], ['d'], ['c'], "2.0"⟩, none⟩), Tree.twoInfos) ∧
      (Tree.twoInfos.run (({} : PackTask).run gone)).1 = .ok Output.firstPackage ∧
      Tree.twoInfos.run (({} : DescribeTask).run gone) =
        (.error (.project (.notFound "p/Gone.etl")), Tree.twoInfos) := by
  decide +kernel

end Nameplate
