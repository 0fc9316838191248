/-
# Reading arguments

Arguments are flags and words. A flag is written `--name` or, if it has a
letter, `-l`, and letters can be written together. The value of a flag follows
an equals sign or is the next argument, which then must not look like a flag;
a lone `-` does not. A switch takes no value. A flag is given once unless it
may repeat, and a request such as the one for help ends the reading at once.
After `--` nothing is a flag any more.

Flags are read up to the first word. The reading goes from left to right, and
the first thing that is wrong counts.

Key definitions: `Flag`, `Given`, `readFlags`.
-/
import Nameplate.Text

namespace Nameplate
namespace CommandLine

/-- What is wrong with the arguments. -/
inductive Fault where
  | noCommand
  | unknownCommand (name : Text)
  | unknownFlag (flag : Text)
  | unexpected (argument : Text)
  | noValue (flag : Text)
  | needlessValue (flag : Text)
  | badValue (flag value : Text)
  | repeated (flag : Text)
  /-- A flag that must be given is not. -/
  | missing (flag : Text)
  /-- A flag is given without another one that it needs. -/
  | needs (flag other : Text)
  deriving DecidableEq, Repr

/-- The fault in words. -/
def Fault.message : Fault → Text
  | .noCommand => "a command is required"
  | .unknownCommand name => "unrecognized command '" ++ name ++ "'"
  | .unknownFlag flag => "unexpected flag '" ++ flag ++ "'"
  | .unexpected argument => "unexpected argument '" ++ argument ++ "'"
  | .noValue flag => "a value is required for '--" ++ flag ++ "'"
  | .needlessValue flag => "'--" ++ flag ++ "' takes no value"
  | .badValue flag value => "invalid value '" ++ value ++ "' for '--" ++ flag ++ "'"
  | .repeated flag => "'--" ++ flag ++ "' is given more than once"
  | .missing flag => "'--" ++ flag ++ "' is required"
  | .needs flag other => "'--" ++ flag ++ "' needs '--" ++ other ++ "'"

/-- Why reading ends before the arguments do. -/
inductive Stop where
  | fault (fault : Fault)
  | help
  | version
  deriving DecidableEq, Repr

/-- What a flag does. -/
inductive FlagKind where
  | switch
  /-- It takes a value that must be acceptable. -/
  | value (accepts : Text → Bool)
  /-- It ends the reading. -/
  | request (stop : Stop)

/-- A flag. -/
structure Flag where
  name : Text
  kind : FlagKind
  repeats : Bool := false
  letter : Option Char := none

/-- The flags that were given, with their values, in order; a switch has the empty value. -/
abbrev Given := List (Text × Text)

namespace Given

/-- Whether a flag was given. -/
def has (given : Given) (flag : Text) : Bool := given.any fun g => g.1 = flag

/-- The value of a flag. -/
def value? (given : Given) (flag : Text) : Option Text := given.lookup flag

/-- The values of a flag that may repeat. -/
def values (given : Given) (flag : Text) : List Text :=
  (given.filter fun g => g.1 = flag).map Prod.snd

/-- Adds a flag. -/
def add (given : Given) (flag : Flag) (value : Text) : Except Stop Given :=
  if !flag.repeats && given.has flag.name then .error (.fault (.repeated flag.name))
  else .ok (given ++ [(flag.name, value)])

end Given

/-- How an argument looks. -/
inductive Shape where
  | separator
  /-- A flag by its name, with the value after an equals sign. -/
  | long (name : Text) (value : Option Text)
  /-- Flags by their letters. -/
  | short (letters : List Char)
  | word
  deriving DecidableEq, Repr

/-- How an argument looks. -/
def shape (argument : Text) : Shape :=
  match argument with
  | ['-', '-'] => .separator
  | '-' :: '-' :: flag =>
    match Text.splitAtFirst '=' flag with
    | some (name, value) => .long name (some value)
    | none => .long flag none
  | '-' :: c :: letters => .short (c :: letters)
  | _ => .word

/-- Adds a flag with a value. -/
def addValue (given : Given) (flag : Flag) (accepts : Text → Bool) (value : Text) :
    Except Stop Given :=
  if accepts value then given.add flag value else .error (.fault (.badValue flag.name value))

/-- Adds flags given by their letters. None of those that take a value has a letter. -/
def addLetters (flags : List Flag) : Given → List Char → Except Stop Given
  | given, [] => .ok given
  | given, c :: rest =>
    match flags.find? fun f => f.letter = some c with
    | none => .error (.fault (.unknownFlag ['-', c]))
    | some flag =>
      match flag.kind with
      | .switch => do addLetters flags (← given.add flag []) rest
      | .value _ => .error (.fault (.noValue flag.name))
      | .request stop => .error stop

/-- Reads flags up to the first word. Gives the flags, and the word with the arguments after it. -/
def readFlags (flags : List Flag) :
    Given → List Text → Except Stop (Given × Option (Text × List Text))
  | given, [] => .ok (given, none)
  | given, argument :: rest =>
    match shape argument with
    | .word => .ok (given, some (argument, rest))
    | .separator =>
      match rest with
      | [] => .ok (given, none)
      | extra :: _ => .error (.fault (.unexpected extra))
    | .short letters => do readFlags flags (← addLetters flags given letters) rest
    | .long name attached =>
      match flags.find? fun f => f.name = name with
      | none => .error (.fault (.unknownFlag ('-' :: '-' :: name)))
      | some flag =>
        match flag.kind, attached with
        | .switch, none => do readFlags flags (← given.add flag []) rest
        | .request stop, none => .error stop
        | .switch, some _ | .request _, some _ => .error (.fault (.needlessValue name))
        | .value accepts, some value => do
          readFlags flags (← addValue given flag accepts value) rest
        | .value accepts, none =>
          match rest with
          | [] => .error (.fault (.noValue name))
          | value :: rest =>
            if shape value = .word then do
              readFlags flags (← addValue given flag accepts value) rest
            else .error (.fault (.noValue name))

end CommandLine
end Nameplate
