/-
# Where a package document goes

The document of a package is named after the package's id. The name is one that
leads from a directory to a file directly in it unless the id has a separator,
and the id has those of the title and of the configuration
(`Package.separator_mem_idFor_iff`).

So a document lies directly in the package directory where neither of them has a
separator. Where one does, the id is no longer a name in the directory. One that
begins with a separator is a path from the root, whatever the package directory
is. Any other leads through the directories it names, be it downwards or out of
the package directory, and to a file directly in it just where it names none:
where all that stands before its last separator is separators and `.`
(`makePackage_placed`).

Key definition: `PackageReport.Placed`.
Key theorems: `Package.separator_mem_idFor_iff`, `Package.isNamedIn_join_iff`,
`Package.isChild_join_iff`, `makePackage_placed`.
-/
import Nameplate.Proofs.Files.Frame
import Nameplate.Proofs.Path.Children
import Nameplate.Proofs.Text.Blank

namespace Nameplate

/-! ### The names of documents -/

namespace Package

open Nameplate.Path

/-- The id of a package has the separators of the title and of the configuration. -/
theorem separator_mem_idFor_iff (title : Text) (configuration : Option Text) :
    '/' ∈ idFor title configuration ↔ '/' ∈ title ∨ ∃ c ∈ configuration, '/' ∈ c := by
  have hgiven : (∃ c, configuration.bind Text.nonBlank? = some c ∧ '/' ∈ c) ↔
      ∃ c ∈ configuration, '/' ∈ c := by
    cases configuration with
    | none => simp
    | some given => simpa using Text.mem_nonBlank?_iff (by decide) given
  rw [← hgiven, idFor, List.mem_filter]
  cases configuration.bind Text.nonBlank? with
  | none => simp
  | some c => simp

variable {id : Text}

/-- A document has a name unless the id has a separator. -/
theorem isName_fileName (h : '/' ∉ id) : IsName (id ++ ".nuspec") where
  ne_nil he := by simpa using congrArg List.length he
  separator_notMem hm := by
    rcases List.mem_append.1 hm with hid | hend
    · exact h hid
    · exact absurd hend (by decide)
  ne_here he := by simpa using congrArg List.length he
  ne_up he := by simpa using congrArg List.length he

theorem isAbsolute_fileName (id : Text) : isAbsolute (id ++ ".nuspec") = isAbsolute id := by
  cases id <;> rfl

/-- A document is named in the directory just where the id has no separator. -/
theorem isNamedIn_join_iff (dir : Path) (h : isAbsolute id = false) :
    IsNamedIn dir (join dir (id ++ ".nuspec")) ↔ '/' ∉ id := by
  constructor
  · rintro ⟨name, hname, he⟩ hm
    have hfile := join_injective ((isAbsolute_fileName id).trans h) hname.not_isAbsolute he
    exact hname.separator_notMem (hfile ▸ List.mem_append_left _ hm)
  · intro hm
    exact ⟨_, isName_fileName hm, rfl⟩

/-- The name of a document takes up what follows the last separator of the id. -/
theorem exists_inner_fileName (id : Text) :
    ∃ name, inner (id ++ ".nuspec") =
      (id.splitOn '/').dropLast.filterMap component? ++ [.name name] := by
  by_cases hm : '/' ∈ id
  · obtain ⟨last, dirs, hsplit, hlast⟩ := List.eq_append_cons_of_mem (List.mem_reverse.2 hm)
    obtain rfl : id = dirs.reverse ++ '/' :: last.reverse := by
      simpa using congrArg List.reverse hsplit
    have hname := isName_fileName (mt List.mem_reverse.1 hlast)
    refine ⟨last.reverse ++ ".nuspec", ?_⟩
    rw [List.append_assoc, List.cons_append, inner_append_separator, hname.inner_eq,
      List.splitOn_append_cons_self, List.splitOn_eq_singleton (mt List.mem_reverse.1 hlast),
      List.dropLast_concat]
    rfl
  · rw [(isName_fileName hm).inner_eq, List.splitOn_eq_singleton hm]
    exact ⟨_, rfl⟩

/-- **Under an id that is no path from the root** the document lies directly in the directory just
where nothing before the last separator of the id names a directory. -/
theorem isChild_join_iff (dir : Path) (h : isAbsolute id = false) :
    IsChild dir (join dir (id ++ ".nuspec")) ↔
      ∀ piece ∈ (id.splitOn '/').dropLast, piece = [] ∨ piece = ['.'] := by
  obtain ⟨last, hinner⟩ := exists_inner_fileName id
  have hnone : (id.splitOn '/').dropLast.filterMap component? = [] ↔
      ∀ piece ∈ (id.splitOn '/').dropLast, piece = [] ∨ piece = ['.'] := by
    simp only [List.filterMap_eq_nil_iff, component?_eq_none_iff]
  rw [Path.isChild_join_iff dir ((isAbsolute_fileName id).trans h), hinner, ← hnone]
  constructor
  · rintro ⟨name, he⟩
    simpa using congrArg List.length he
  · intro he
    exact ⟨last, by rw [he, List.nil_append]⟩

end Package

open Nameplate.Action Nameplate.Path

/-- Where the document of a package with the given title goes: `s` are the files before, `s'` those
after. -/
structure PackageReport.Placed (r : PackageRequest) (title : Text) (s s' : Store)
    (report : PackageReport) : Prop where
  id_eq : report.id = Package.idFor title r.configuration
  path_eq : report.path = join r.packageDir (report.id ++ ".nuspec")
  /-- No other file is written. -/
  written : ∃ content, s' = s.put report.path content
  /-- Without separators it goes directly into the package directory. -/
  child : '/' ∉ title → (∀ c ∈ r.configuration, '/' ∉ c) →
    IsNamedIn r.packageDir report.path ∧ IsChild r.packageDir report.path ∧
      components report.path = components r.packageDir ++ [.name (report.id ++ ".nuspec")]
  /-- With separators its path is no longer the directory and a name. -/
  named_iff : isAbsolute report.id = false →
    (IsNamedIn r.packageDir report.path ↔ '/' ∉ title ∧ ∀ c ∈ r.configuration, '/' ∉ c)
  /-- It then leads elsewhere if the id names a directory before its last separator. -/
  child_iff : isAbsolute report.id = false →
    (IsChild r.packageDir report.path ↔
      ∀ piece ∈ (report.id.splitOn '/').dropLast, piece = [] ∨ piece = ['.'])
  /-- Under an id that is a path from the root it goes there, whatever the package directory is. -/
  absolute : isAbsolute report.id = true → report.path = report.id ++ ".nuspec"

theorem PackageReport.placed_of_path {r : PackageRequest} {title : Text} {s s' : Store}
    {report : PackageReport} (hid : report.id = Package.idFor title r.configuration)
    (hpath : report.path = join r.packageDir (report.id ++ ".nuspec"))
    (hwritten : ∃ content, s' = s.put report.path content) : report.Placed r title s s' := by
  have hseparator : '/' ∉ report.id ↔ '/' ∉ title ∧ ∀ c ∈ r.configuration, '/' ∉ c := by
    rw [hid, Package.separator_mem_idFor_iff]
    simp
  refine ⟨hid, hpath, hwritten, fun ht hc => ?_, fun habs => ?_, fun habs => ?_, fun habs => ?_⟩
  · have hname := Package.isName_fileName (hseparator.2 ⟨ht, hc⟩)
    have hnamed : IsNamedIn r.packageDir report.path := ⟨_, hname, hpath⟩
    exact ⟨hnamed, hnamed.isChild, by rw [hpath, components_join _ hname]⟩
  · rw [hpath, Package.isNamedIn_join_iff _ habs, hseparator]
  · rw [hpath, Package.isChild_join_iff _ habs]
  · rw [hpath, join_of_isAbsolute _ ((Package.isAbsolute_fileName _).trans habs)]

/-- **The document of a package** is a file directly in the package directory, where neither the
title of the project nor the configuration has a separator. -/
theorem makePackage_placed {r : PackageRequest} {s s' : Store} {report : PackageReport}
    (h : on (makePackage r) s = (.ok report, s')) :
    ∃ found, (on (findBuiltMetadata r.metadata) s).1 = .ok found ∧
      report.Placed r found.record.title s s' := by
  have hcases := readThenWrite_cases (readOnly_buildPackage r)
    (fun package => (join r.packageDir package.fileName, package.document ++ ['\n']))
    (fun package => PackageReport.mk (join r.packageDir package.fileName) package.id package.version
      package.files.length package.dependencies.length) s
  rcases hcases with ⟨e, he⟩ | ⟨package, hpackage, -, hmake⟩
  · have hfailed : Except.error e = Except.ok report :=
      congrArg Prod.fst (he.symm.trans h)
    cases hfailed
  · obtain ⟨hreport, rfl⟩ := Prod.mk.inj (hmake.symm.trans h)
    obtain rfl := Except.ok.inj hreport
    have hbuild : (buildPackage r : Action Package).run.run s = (.ok package, s) :=
      Prod.ext hpackage (readOnly_buildPackage r s)
    obtain ⟨found, files, hfind, -, rfl⟩ := run_buildPackage_eq_ok (fun _ _ => rfl) hbuild
    exact ⟨found, congrArg Prod.fst hfind,
      PackageReport.placed_of_path rfl rfl ⟨_, rfl⟩⟩

/-- A project with a title. -/
def Store.ofTitle (title : Text) : Store where
  files := [(components "EtlInfo.etl", Utf8.encode
    ("EtlTitle=\"" ++ title ++ "\"\nEtlDescription=\"d\"\nEtlCompany=\"c\"\nEtlVersion=\"1.0\""))]

/-- A title and a configuration of dots and blanks, and a directory that ends in separators. -/
theorem makePackage_placed_dots :
    let r : PackageRequest := {
      packageDir := "./o//", projectDir := [], outputPath := ['b'], language := .etl
      configuration := some " .. ".toList }
    let path : Path := "./o//.....nuspec"
    ∃ report s', on (makePackage r) (.ofTitle ". ") = (.ok report, s') ∧
      report.Placed r ". " (.ofTitle ". ") s' ∧ report.path = path ∧
      components path = [.here, .name ['o'], .name ".....nuspec"] := by
  intro r path
  have hanswer : (on (makePackage r) (.ofTitle ". ")).1 = .ok ⟨path, "....", "1.0", 10, 0⟩ := by
    decide +kernel
  rcases h : on (makePackage r) (.ofTitle ". ") with ⟨answer, s'⟩
  rw [h] at hanswer
  obtain rfl : answer = _ := hanswer
  obtain ⟨found, hfound, hplaced⟩ := makePackage_placed h
  have htitle : found.record.title = ". " := by
    have hscan : (on (findBuiltMetadata r.metadata) (.ofTitle ". ")).1.map (·.record.title) =
        .ok ". ".toList := by
      decide +kernel
    rw [hfound] at hscan
    exact Except.ok.inj hscan
  exact ⟨_, _, rfl, htitle ▸ hplaced, rfl, by decide⟩

/-- Not every document goes into the package directory: a title leads out of it, or to a place of
its own. -/
theorem makePackage_placed_elsewhere :
    let r : PackageRequest :=
      { packageDir := "pkg", projectDir := [], outputPath := ['b'], language := .etl }
    ((on (makePackage r) (.ofTitle "../A")).1.map (·.path) = .ok "pkg/../A.nuspec".toList ∧
      ¬ IsChild "pkg" "pkg/../A.nuspec") ∧
    ((on (makePackage r) (.ofTitle "/x/A")).1.map (·.path) = .ok "/x/A.nuspec".toList ∧
      ¬ IsChild "pkg" "/x/A.nuspec") := by
  intro r
  refine ⟨⟨by decide +kernel, fun h => ?_⟩, by decide +kernel, fun h => ?_⟩
  · exact absurd h.dropLast_steps (by decide)
  · exact absurd h.dropLast_steps (by decide)

end Nameplate
