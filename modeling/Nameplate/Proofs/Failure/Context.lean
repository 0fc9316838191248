/-
# Failures in context

A failure may get several contexts on its way out, the innermost place first.
None of them is taken by a failure with a cause of its own
(`Failure.inContexts_of_hasCause`). Any other failure keeps what it says of
itself, its headline, at the top, and below it come the contexts, a new one above
those that are there (`Failure.message_inContexts`). So what it said at first is
how it begins at last, unless it came with a context: that one moves down.

What may help is always the same. The exit code is that of the kind of failure,
so it stays where the kind does; only a failure of the system changes its kind,
as it takes its first context.

Key definitions: `Failure.inContexts`, `Failure.headline`, `Failure.KeptIn`.
Key theorems: `Failure.message_inContexts`, `Failure.inContexts_kept`.
-/
import Nameplate.Failure

namespace Nameplate
namespace Failure

variable {f : Failure}

/-- The failure with several contexts, added one after another. -/
def inContexts (contexts : List Text) (f : Failure) : Failure :=
  contexts.foldl (fun f context => inContext context f) f

/-- Whether the failure has a cause of its own. -/
def hasCause : Failure → Bool
  | .settings _ | .project _ => true
  | .system _ | .note _ _ _ => false

/-- Whether the system refused something. -/
def isSystem : Failure → Bool
  | .system _ => true
  | .settings _ | .project _ | .note _ _ _ => false

/-- What the failure says of itself. -/
def headline : Failure → Text
  | .note text _ _ => text
  | f => f.message

/-- The context the failure has. -/
def context? : Failure → Option Text
  | .note _ context _ => context
  | .settings _ | .project _ | .system _ => none

/-- Contexts as they stand below a headline, each on lines of its own. -/
def below (contexts : List Text) : Text := contexts.flatMap ('\n' :: ·)

theorem below_append (as bs : List Text) : below (as ++ bs) = below as ++ below bs :=
  List.flatMap_append

theorem below_singleton (context : Text) : below [context] = '\n' :: context := by simp [below]

/-- A failure says its headline and, below that, its context. -/
theorem message_eq (f : Failure) : f.message = f.headline ++ below f.context?.toList := by
  cases f with
  | note text context help =>
    cases context with
    | none => exact (List.append_nil text).symm
    | some context => exact congrArg (text ++ ·) (below_singleton context).symm
  | settings fault => exact (List.append_nil fault.message).symm
  | project fault => exact (List.append_nil fault.message).symm
  | system fault => exact (List.append_nil (message (.system fault))).symm

/-! ### One context -/

theorem inContext_of_hasCause (context : Text) (h : f.hasCause = true) :
    inContext context f = f := by
  cases f with
  | settings fault => exact inContext_settings context fault
  | project fault => exact inContext_project context fault
  | system | note => cases h

theorem hasCause_inContext (context : Text) (f : Failure) :
    (inContext context f).hasCause = f.hasCause := by
  cases f with
  | note text inner help => cases inner <;> rfl
  | _ => rfl

theorem headline_inContext (context : Text) (f : Failure) :
    (inContext context f).headline = f.headline := by
  cases f with
  | note text inner help => cases inner <;> rfl
  | _ => rfl

/-- **A new context stands above the one that is there.** -/
theorem below_inContext (context : Text) (h : f.hasCause = false) :
    below (inContext context f).context?.toList = below (context :: f.context?.toList) := by
  cases f with
  | settings | project => cases h
  | system fault => rfl
  | note text inner help => cases inner <;> simp [inContext, context?, below]

/-- In a context no failure is one of the system any more. -/
theorem isSystem_inContext (context : Text) (f : Failure) :
    (inContext context f).isSystem = false := by
  cases f with
  | note text inner help => cases inner <;> rfl
  | _ => rfl

theorem exitCode_inContext (context : Text) (h : f.isSystem = false) :
    (inContext context f).exitCode = f.exitCode := by
  cases f with
  | system => cases h
  | note text inner help => cases inner <;> rfl
  | _ => rfl

/-! ### Any number of contexts -/

theorem inContexts_of_hasCause (contexts : List Text) (h : f.hasCause = true) :
    inContexts contexts f = f := by
  induction contexts with
  | nil => rfl
  | cons context contexts ih =>
    rw [inContexts, List.foldl_cons, inContext_of_hasCause context h]
    exact ih

/-- **The contexts stand below the headline**, the last one first. -/
theorem message_inContexts (contexts : List Text) (h : f.hasCause = false) :
    (inContexts contexts f).message =
      f.headline ++ below (contexts.reverse ++ f.context?.toList) := by
  induction contexts generalizing f with
  | nil => exact message_eq f
  | cons context contexts ih =>
    have hnext := ih ((hasCause_inContext context f).trans h)
    calc (inContexts (context :: contexts) f).message
        = f.headline ++ (below contexts.reverse ++
            below (inContext context f).context?.toList) := by
          rw [← headline_inContext context f, ← below_append]
          exact hnext
      _ = f.headline ++ below ((context :: contexts).reverse ++ f.context?.toList) := by
          rw [below_inContext context h, ← below_append, List.reverse_cons, List.append_assoc,
            List.singleton_append]

example : (inContexts ["inner", "outer"] (ofText ['m'])).message = "m\nouter\ninner".toList := by
  decide

theorem help?_inContexts (contexts : List Text) (f : Failure) :
    (inContexts contexts f).help? = f.help? := by
  induction contexts generalizing f with
  | nil => rfl
  | cons context contexts ih => exact (ih (inContext context f)).trans (help?_inContext context f)

theorem exitCode_inContexts (contexts : List Text) (h : f.isSystem = false) :
    (inContexts contexts f).exitCode = f.exitCode := by
  induction contexts generalizing f with
  | nil => rfl
  | cons context contexts ih =>
    exact (ih (isSystem_inContext context f)).trans (exitCode_inContext context h)

/-- What contexts leave of a failure as it is. -/
structure KeptIn (contexts : List Text) (f : Failure) : Prop where
  help?_eq : (inContexts contexts f).help? = f.help?
  exitCode_eq : contexts = [] ∨ f.isSystem = false →
    (inContexts contexts f).exitCode = f.exitCode
  /-- A failure with a cause of its own stays as it is. -/
  caused : f.hasCause = true → inContexts contexts f = f
  /-- Any other gets the contexts below its headline. -/
  told : f.hasCause = false → (inContexts contexts f).message =
    f.headline ++ below (contexts.reverse ++ f.context?.toList)
  headline_prefix : f.headline <+: (inContexts contexts f).message
  /-- Without a context of its own it begins with all it said. -/
  message_prefix : f.context? = none → f.message <+: (inContexts contexts f).message

/-- **A context adds to what is told of a failure**, and leaves what may help and the exit code. -/
theorem inContexts_kept (contexts : List Text) (f : Failure) : KeptIn contexts f := by
  have hheadline : f.headline <+: (inContexts contexts f).message := by
    cases h : f.hasCause with
    | true =>
      rw [inContexts_of_hasCause contexts h, message_eq]
      exact List.prefix_append _ _
    | false =>
      rw [message_inContexts contexts h]
      exact List.prefix_append _ _
  refine ⟨help?_inContexts contexts f, fun h => ?_, inContexts_of_hasCause contexts,
    message_inContexts contexts, hheadline, fun h => ?_⟩
  · rcases h with rfl | h
    · rfl
    · exact exitCode_inContexts contexts h
  · rwa [message_eq, h, Option.toList_none, below, List.flatMap_nil, List.append_nil]

/-- Not every failure begins as it did, for a context it had moves down; and not every one ends a
run with the same exit code, for one of the system becomes a note. -/
theorem inContexts_notKept :
    (¬ ∀ contexts f, f.message <+: (inContexts contexts f).message) ∧
      ¬ ∀ contexts f, (inContexts contexts f).exitCode = f.exitCode := by
  constructor
  · intro h
    exact absurd (h ["b"] (.note ['m'] (some ['a']) none)) (by decide)
  · intro h
    exact absurd (h ["b"] (.system (.system "disk full"))) (by decide)

end Failure
end Nameplate
