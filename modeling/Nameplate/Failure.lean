/-
# Failures

Everything that can go wrong is a `Failure`. Its cause says what the user is
told (`message`), what may help (`help?`) and the exit code: 1 for what the
user asked, 2 for what the system refused, 3 for what the project's files
lack.

`inContext` adds the place at which a failure arose. A failure with a cause of
its own says enough and stays as it is; a note takes the context below its
text, the outer one above the inner; and a failure of the system becomes a
note, since its text says nothing of the file it concerns.

Key definitions: `Failure.message`, `Failure.help?`, `Failure.exitCode`,
`Failure.inContext`, `Language.parse`.
-/
import Nameplate.Language
import Nameplate.Line.Reading

namespace Nameplate

/-- What is wrong with the user's request or settings. -/
inductive SettingsFault where
  | notFound (path : Path)
  /-- A value is neither among the flags nor in the settings. -/
  | missing (field : Text)
  | unknownLanguage (name : Text)
  /-- A version has a placeholder, and nothing was given to put there. -/
  | noVersionPart (path : Path)
  deriving DecidableEq, Repr

/-- What is wrong with a project's files. -/
inductive ProjectFault where
  | notFound (path : Path)
  /-- The file leaves the named fields blank. -/
  | incomplete (path : Path) (missing : List Text)
  | noVersion (path : Path)
  /-- A build artifact lacks an attribute. -/
  | noAttribute (name : Text) (path : Path)
  deriving DecidableEq, Repr

/-- Why an operation failed. -/
inductive Failure where
  | settings (fault : SettingsFault)
  | project (fault : ProjectFault)
  | system (fault : ReadFault)
  | note (text : Text) (context : Option Text) (help : Option Text)
  deriving DecidableEq, Repr

/-- Outcomes are compared like the failures and the results in them. -/
instance decidableEqOutcome {ε α : Type} [DecidableEq ε] [DecidableEq α] :
    DecidableEq (Except ε α)
  | .ok a, .ok b => decidable_of_iff (a = b) (by rw [Except.ok.injEq])
  | .error e, .error f => decidable_of_iff (e = f) (by rw [Except.error.injEq])
  | .ok _, .error _ | .error _, .ok _ => isFalse nofun

namespace SettingsFault

/-- The fault in words. -/
def message : SettingsFault → Text
  | .notFound path => "Configuration file not found: " ++ path
  | .missing field => "Missing required input: " ++ field
  | .unknownLanguage name => "Unknown language '" ++ name ++ "'"
  | .noVersionPart path =>
    "Version template in " ++ path ++ " contains a '*' placeholder but no version part was given"

/-- What the user may do. -/
def help : SettingsFault → Text
  | .notFound _ => "Create a stamp.toml in the current directory or pass the path with --config."
  | .missing field =>
    "Pass --" ++ Text.replace '_' ['-'] field ++ " on the command line or set it in stamp.toml."
  | .unknownLanguage _ => "Supported languages: " ++ Text.join ", " (Language.all.map Language.id)
  | .noVersionPart _ => "Pass --version-part (e.g. the build number) to fill the '*' placeholder."

end SettingsFault

namespace ProjectFault

/-- The fault in words. -/
def message : ProjectFault → Text
  | .notFound path => "Unable to locate info file: " ++ path
  | .incomplete path missing =>
    "Incomplete project information in " ++ path ++ " (missing: " ++ Text.join ", " missing ++ ")"
  | .noVersion path => "No version attribute found in " ++ path
  | .noAttribute name path =>
    "The " ++ name ++ " assembly attribute is required (" ++ path ++ ")"

/-- What the user may do. -/
def help : ProjectFault → Text
  | .notFound _ =>
    "Check --project-dir and --language, or point at the file with --info-path."
  | .incomplete _ missing =>
    "Add the " ++ Text.join ", " missing ++ " attribute(s) to the info file."
  | .noVersion _ => "The file must declare a version or informational version attribute."
  | .noAttribute name _ =>
    "Declare the " ++ name ++ " attribute in the project and rebuild the artifact."

end ProjectFault

namespace Failure

/-- A failure that is told in words only. -/
def ofText (text : Text) : Failure := .note text none none

/-- A document that is not what its format or its reader demands. -/
def malformed (format reason : Text) : Failure := ofText (format ++ ": " ++ reason)

/-- The failure in words. -/
def message : Failure → Text
  | .settings f => f.message
  | .project f => f.message
  | .system f => "I/O error: " ++ f.message
  | .note text none _ => text
  | .note text (some context) _ => text ++ '\n' :: context

/-- What the user may do about it. -/
def help? : Failure → Option Text
  | .settings f => some f.help
  | .project f => some f.help
  | .system _ => none
  | .note _ _ help => help

/-- The exit code of a run that ends in the failure. -/
def exitCode : Failure → Nat
  | .settings _ | .note _ _ _ => 1
  | .system _ => 2
  | .project _ => 3

/-- The failure with the place at which it arose. -/
def inContext (context : Text) : Failure → Failure
  | .note text none help => .note text (some context) help
  | .note text (some inner) help => .note text (some (context ++ '\n' :: inner)) help
  | .system f => .note (message (.system f)) (some context) none
  | f => f

/-- A failure with a cause of its own stays as it is. -/
theorem inContext_settings (c : Text) (f : SettingsFault) :
    inContext c (.settings f) = .settings f := rfl

theorem inContext_project (c : Text) (f : ProjectFault) : inContext c (.project f) = .project f := rfl

/-- A context does not change what may help. -/
theorem help?_inContext (c : Text) (f : Failure) : (inContext c f).help? = f.help? := by
  cases f with
  | note text context help => cases context <;> rfl
  | _ => rfl

/-- What is shown of a failure when a run ends in it. -/
def report (f : Failure) : Text :=
  "\n❌ " ++ f.message ++ "\n\n" ++
    match f.help? with
    | some help => "💡 Help: " ++ help ++ "\n\n"
    | none => []

end Failure

/-- The language of a name the user gave. -/
def Language.parse (name : Text) : Except Failure Language :=
  match Language.parse? name with
  | some l => .ok l
  | none => .error (.settings (.unknownLanguage name))

end Nameplate
