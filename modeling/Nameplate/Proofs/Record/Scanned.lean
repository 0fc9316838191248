/-
# The metadata of an info file, without a pass

What reading finds can be said of the logical lines at once. A title, a
description and a company are what the last line that declares them has between
its quotes. Of the lines that declare a version the first one says how they are
to be read (`Declaration.Decides`): after a plain version the last of them
counts; after a semantic version the first of them that is not blank, of
whichever kind, and the last where all are blank. One record is like that
(`Record.isReadFrom_iff`), and reading gives it for any bytes, text or not
(`Record.scan_isReadFrom`).

Key definitions: `Declaration.Decides`, `Record.IsReadFrom`.
Key theorems: `Declaration.decides_iff`, `Record.isReadFrom_iff`,
`Record.scan_isReadFrom`.
-/
import Nameplate.Proofs.Record.Declared

namespace Nameplate

namespace Declaration

/-- Which version the declarations of versions come to. -/
inductive Decides : List Declaration → Text → Prop
  | undeclared : Decides [] []
  | plain {vs : List Declaration} {first d : Declaration} : vs.head? = some first →
      first.kind = .version → vs.getLast? = some d → Decides vs d.value
  | semantic {vs before after : List Declaration} {first d : Declaration} :
      vs.head? = some first → first.kind = .semanticVersion → vs = before ++ d :: after →
      (∀ e ∈ before, Text.isBlank e.value = true) → Text.isBlank d.value = false →
      Decides vs d.value
  | blank {vs : List Declaration} {first d : Declaration} : vs.head? = some first →
      first.kind = .semanticVersion → (∀ e ∈ vs, Text.isBlank e.value = true) →
      vs.getLast? = some d → Decides vs d.value

theorem isVersion_of_mem_versions {ds : List Declaration} {d : Declaration} (h : d ∈ versions ds) :
    d.kind.isVersion = true :=
  (List.mem_filter.1 h).2

/-- After a semantic version the first that is not blank counts, and the last if none is. -/
theorem version_of_first_semantic {ds : List Declaration}
    (h : firstKind ds = some .semanticVersion) :
    version ds =
      ((((versions ds).find? fun d => !Text.isBlank d.value).or (versions ds).getLast?).map
        value).getD [] := by
  rw [version, deciding, if_pos h]

theorem Decides.eq_version {ds : List Declaration} {v : Text} (h : Decides (versions ds) v) :
    v = version ds := by
  generalize hvs : versions ds = vs at h
  cases h with
  | undeclared => rw [version_of_plain (by simp [firstKind, hvs]), hvs]; rfl
  | plain hfirst hkind hlast =>
    have hplain : firstKind ds ≠ some .semanticVersion := by simp [firstKind, hvs, hfirst, hkind]
    rw [version_of_plain hplain, hvs, hlast]
    rfl
  | @semantic _ before after _ d hfirst hkind hsplit hbefore hblank =>
    have hfind : (vs.find? fun d => !Text.isBlank d.value) = some d :=
      List.find?_eq_some_iff_append.2
        ⟨by simpa using hblank, before, after, hsplit, fun e he => by simpa using hbefore e he⟩
    rw [version_of_first_semantic (by simp [firstKind, hvs, hfirst, hkind]), hvs, hfind]
    rfl
  | blank hfirst hkind hblank hlast =>
    have hfind : (vs.find? fun d => !Text.isBlank d.value) = none :=
      List.find?_eq_none.2 fun e he => by simpa using hblank e he
    rw [version_of_first_semantic (by simp [firstKind, hvs, hfirst, hkind]), hvs, hfind, hlast]
    rfl

theorem decides_version (ds : List Declaration) : Decides (versions ds) (version ds) := by
  cases hvs : versions ds with
  | nil =>
    rw [version_of_plain (by simp [firstKind, hvs]), hvs]
    exact .undeclared
  | cons first rest =>
    have hlast : (first :: rest).getLast? = some (rest.getLast?.getD first) := List.getLast?_cons
    have hfirst : firstKind ds = some first.kind := by rw [firstKind, hvs]; rfl
    cases hkind : first.kind with
    | title | description | company =>
      have h := isVersion_of_mem_versions (hvs ▸ List.mem_cons_self : first ∈ versions ds)
      simp [hkind, Attribute.isVersion] at h
    | version =>
      rw [version_of_plain (by simp [hfirst, hkind]), hvs, hlast]
      exact .plain rfl hkind hlast
    | semanticVersion =>
      rw [version_of_first_semantic (by rw [hfirst, hkind]), hvs]
      cases hfind : (first :: rest).find? fun d => !Text.isBlank d.value with
      | none =>
        rw [hlast]
        refine .blank rfl hkind (fun e he => ?_) hlast
        simpa using List.find?_eq_none.1 hfind e he
      | some d =>
        obtain ⟨hd, before, after, hsplit, hbefore⟩ := List.find?_eq_some_iff_append.1 hfind
        exact .semantic rfl hkind hsplit (fun e he => by simpa using hbefore e he)
          (by simpa using hd)

/-- **One version is decided on.** -/
theorem decides_iff {ds : List Declaration} {v : Text} :
    Decides (versions ds) v ↔ v = version ds :=
  ⟨Decides.eq_version, fun h => h ▸ decides_version ds⟩

end Declaration

namespace Record

open Declaration

/-- A record has in each field what the declarations say of it. -/
structure IsReadFrom (r : Record) (ds : List Declaration) : Prop where
  title : r.title = last .title ds
  description : r.description = last .description ds
  company : r.company = last .company ds
  version : Decides (versions ds) r.version

theorem isReadFrom_iff {r : Record} {ds : List Declaration} :
    r.IsReadFrom ds ↔ r = Declaration.record ds := by
  constructor
  · rintro ⟨htitle, hdescription, hcompany, hversion⟩
    obtain ⟨title, description, company, version⟩ := r
    rw [decides_iff] at hversion
    simp only at htitle hdescription hcompany hversion
    rw [htitle, hdescription, hcompany, hversion, Declaration.record]
  · rintro rfl
    exact ⟨rfl, rfl, rfl, decides_version ds⟩

/-- **Reading an info file gives what its logical lines declare**, whatever its bytes. -/
theorem scan_isReadFrom (l : Language) (bytes : Bytes) :
    ∃ gs r,
      Grouped l.profile.declaresAttribute l.profile.joinsNextLine
        ((PhysicalLine.split bytes).map fun x => ⟨Utf8.decodeLossy x.text, x.ending⟩) gs ∧
      Record.scan l.profile ⟨bytes, none⟩ = .ok r ∧
      ∀ r' : Record, r'.IsReadFrom (l.profile.markers.declarations gs) ↔ r' = r := by
  refine ⟨_, _, Group.grouped_sort _, ?_, fun r' => isReadFrom_iff⟩
  rw [Record.scan]
  simp only [Scan.run_eq]
  rfl

/-- The first version that is not blank may be a plain one. -/
example : (Record.scan Language.tsql.profile (Source.ofText
      ("DbInformationalVersion = \" \"\nDbVersion = \"1.0.0.0\"\n" ++
        "DbInformationalVersion = \"2.0.0\""))).toOption = some { version := "1.0.0.0" } := by
  decide +kernel

end Record
end Nameplate
