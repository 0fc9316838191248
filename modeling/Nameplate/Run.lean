/-
# A run of the program

A run reads its arguments, finds the settings and does the task. It ends with
an exit code: 0 when the task is done, the failure's own when it is not, and 2
when the arguments are wrong. What the task prints goes to the output, and
what went wrong to the errors.

Key definitions: `Task.run`, `Command.run`, `runArguments`.
-/
import Nameplate.CommandLine.Command
import Nameplate.Settings.File

namespace Nameplate

/-- How a run ends. -/
structure Outcome where
  exitCode : Nat := 0
  output : Text := []
  errors : Text := []
  deriving DecidableEq, Repr

/-- The outcome of what a task printed. -/
def Outcome.ofOutput (o : Output) : Outcome :=
  match o.failure with
  | none => { output := o.text }
  | some failure => ⟨failure.exitCode, o.text, failure.report⟩

/-- The outcome of a task that did not get to print. -/
def Outcome.ofFailure (failure : Failure) : Outcome := ⟨failure.exitCode, [], failure.report⟩

/-- How the program is called. -/
def usage : Text := Output.lines
  ["Shows what a project says of itself, and stamps its versions",
    [],
    "Usage: infostamp [--verbose] [--config PATH] COMMAND [FLAGS]",
    [],
    "Commands:",
    "  info     Show the metadata of a project",
    "  version  Stamp the versions in the project's version file",
    "  sonar    Set the version in the project's sonar properties",
    "  nuspec   Make the package document of a project"]

/-- The name and version of the program. -/
def programVersion : Text := "infostamp 0.1.0\n"

/-- The exit code of a run whose arguments are wrong. -/
def usageExitCode : Nat := 2

variable {m : Type → Type} [Monad m] [FileAccess m]

/-- Does a task. -/
def Task.run (s : Settings) (now : Moment) : Task → ExceptT Failure m Output
  | .describe t => t.run s
  | .stamp t => t.run s now
  | .announce t => t.run s
  | .pack t => t.run s

/-- Finds the settings in the working directory and does the task. -/
def Command.run (c : Command) (cwd : Path) (now : Moment) : m Outcome := do
  let done : ExceptT Failure m Output := do c.task.run (← discoverSettings cwd c.config) now
  match ← done.run with
  | .ok output => return .ofOutput output
  | .error failure => return .ofFailure failure

/-- Runs the program with the given arguments. -/
def runArguments (arguments : List Text) (cwd : Path) (now : Moment) : m Outcome :=
  match Command.parse arguments with
  | .ok command => command.run cwd now
  | .error .help => return { output := usage }
  | .error .version => return { output := programVersion }
  | .error (.fault fault) =>
    return {
      exitCode := usageExitCode
      errors := "error: " ++ fault.message ++ "\n\n" ++ usage }

end Nameplate
