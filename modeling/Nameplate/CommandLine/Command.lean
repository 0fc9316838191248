/-
# The command line

The first word names the command, and its flags follow. The flags for the
settings file, for help and for more output may stand before the command or
after it; of two settings files the one after the command counts.

Paths must not be empty; other values may be. Entries of a package must be
well formed.

Key definitions: `Task`, `Command`, `Command.parse`.
-/
import Nameplate.CommandLine
import Nameplate.Task.Announce
import Nameplate.Task.Describe
import Nameplate.Task.Pack
import Nameplate.Task.Stamp

namespace Nameplate

/-- The tasks of the program. -/
inductive Task where
  | describe (task : DescribeTask)
  | stamp (task : StampTask)
  | announce (task : AnnounceTask)
  | pack (task : PackTask)
  deriving DecidableEq, Repr

/-- A task, and the settings file that is named. -/
structure Command where
  config : Option Path
  task : Task
  deriving DecidableEq, Repr

namespace CommandLine

/-- A flag whose value is any text. -/
def textFlag (name : Text) : Flag := ⟨name, .value fun _ => true, false, none⟩

/-- A flag whose value is a path. -/
def pathFlag (name : Text) : Flag := ⟨name, .value fun v => v ≠ [], false, none⟩

/-- A flag without a value. -/
def switchFlag (name : Text) : Flag := ⟨name, .switch, false, none⟩

/-- A flag that names an entry and may repeat. -/
def entryFlag {α : Type} (name : Text) (parse : Text → Except Text α) : Flag :=
  ⟨name, .value fun v => (parse v).isOk, true, none⟩

/-- The flags that may stand before the command or after it. -/
def commonFlags : List Flag :=
  [⟨"verbose", .switch, false, some 'v'⟩, pathFlag "config",
    ⟨"help", .request .help, false, some 'h'⟩]

/-- The flags before the command. -/
def leadingFlags : List Flag := ⟨"version", .request .version, false, some 'V'⟩ :: commonFlags

/-- The entries that a flag gives. -/
def entries {α : Type} (parse : Text → Except Text α) (values : List Text) : List α :=
  values.filterMap fun v => (parse v).toOption

/-- A command of the program: its name, its flags, and the task they make. -/
structure Entry where
  name : Text
  flags : List Flag
  make : Given → Except Fault Task

/-- Shows the metadata of a project. -/
def describeEntry : Entry where
  name := "info"
  flags := [pathFlag "project-dir", textFlag "language", pathFlag "info-path", pathFlag "assembly",
    switchFlag "json"]
  make given := return .describe {
    projectDir := given.value? "project-dir"
    language := given.value? "language"
    infoPath := given.value? "info-path"
    artifact := given.value? "assembly"
    json := given.has "json" }

/-- Stamps the version file of a project. -/
def stampEntry : Entry where
  name := "version"
  flags := [pathFlag "project-dir", textFlag "language", pathFlag "version-info-path",
    textFlag "version-part", switchFlag "release", textFlag "release-version",
    textFlag "new-development-version", switchFlag "dry-run", switchFlag "json"]
  make given :=
    if given.has "release-version" && !given.has "release" then
      .error (.needs "release-version" "release")
    else
      .ok (.stamp {
        projectDir := given.value? "project-dir"
        language := given.value? "language"
        versionPath := given.value? "version-info-path"
        versionPart := given.value? "version-part"
        isRelease := given.has "release"
        releaseVersion := given.value? "release-version"
        newDevelopment := given.value? "new-development-version"
        dryRun := given.has "dry-run"
        json := given.has "json" })

/-- Sets the project version in the properties file of a project. -/
def announceEntry : Entry where
  name := "sonar"
  flags := [pathFlag "solution-dir", pathFlag "project-dir", textFlag "version", switchFlag "json"]
  make given :=
    match given.value? "version" with
    | none => .error (.missing "version")
    | some version =>
      .ok (.announce {
        solutionDir := given.value? "solution-dir"
        projectDir := given.value? "project-dir"
        version
        json := given.has "json" })

/-- Makes the package document of a project. -/
def packEntry : Entry where
  name := "nuspec"
  flags := [pathFlag "package-dir", pathFlag "project-dir", pathFlag "output-path",
    textFlag "language", textFlag "configuration", switchFlag "override-default-files",
    entryFlag "file" FileEntry.parse, entryFlag "dependency" Dependency.parse, switchFlag "json"]
  make given := return .pack {
    packageDir := given.value? "package-dir"
    projectDir := given.value? "project-dir"
    outputPath := given.value? "output-path"
    language := given.value? "language"
    configuration := given.value? "configuration"
    overrideDefaultFiles := given.has "override-default-files"
    files := entries FileEntry.parse (given.values "file")
    dependencies := entries Dependency.parse (given.values "dependency")
    json := given.has "json" }

/-- The commands of the program. -/
def commands : List Entry := [describeEntry, stampEntry, announceEntry, packEntry]

/-- The word that asks for help, on the program or on one of its commands. -/
def helpWord : Text := "help"

/-- What a request for help on the given commands comes to. -/
def helpOn (names : List Text) : Stop :=
  match names with
  | [] => .help
  | name :: rest =>
    if name ∉ helpWord :: commands.map Entry.name then .fault (.unknownCommand name)
    else
      match rest with
      | [] => .help
      | extra :: _ => .fault (.unknownCommand extra)

end CommandLine

open CommandLine

/-- Reads the arguments of a run. -/
def Command.parse (arguments : List Text) : Except Stop Command := do
  match ← readFlags leadingFlags [] arguments with
  | (_, none) => throw (.fault .noCommand)
  | (leading, some (name, rest)) =>
    if name = helpWord then throw (helpOn rest)
    match commands.find? fun entry => entry.name = name with
    | none => throw (.fault (.unknownCommand name))
    | some entry =>
      match ← readFlags (entry.flags ++ commonFlags) [] rest with
      | (_, some (extra, _)) => throw (.fault (.unexpected extra))
      | (given, none) =>
        let task ← (entry.make given).mapError Stop.fault
        return ⟨(given.value? "config").or (leading.value? "config"), task⟩

end Nameplate
