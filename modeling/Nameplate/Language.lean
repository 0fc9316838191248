/-
# Languages and their profiles

The program serves projects in five languages, and all it knows of one is in
its `Profile`: where the info file lies, which markers name the attributes,
what a comment looks like, and whether a declaration takes two lines. Reading
and stamping are written once, over the profile.

Three gates decide what a line is. It is code unless it is a comment; code is
a declaration if it carries the marker the language requires, where it
requires one; and a declaration is an attribute line if, in such a language,
it also names an attribute.

Key definitions: `Language.parse?`, `Profile`, `Language.profile`,
`Profile.isUncommented`, `Profile.mayDeclare`, `Profile.declaresAttribute`,
`Markers.attributeIn?`.
-/
import Nameplate.Path

namespace Nameplate

/-- The languages of the projects. -/
inductive Language where
  | csharp
  | visualBasic
  | tsql
  | etl
  | cobol
  deriving DecidableEq, Repr

namespace Language

/-- All languages, in the order they are listed to the user. -/
def all : List Language := [.csharp, .visualBasic, .tsql, .etl, .cobol]

/-- The name a language is shown by. -/
def id : Language → Text
  | .csharp => "CS"
  | .visualBasic => "VB"
  | .tsql => "TSQL"
  | .etl => "ETL"
  | .cobol => "COBOL"

/-- The names a language is known by. -/
def names : Language → List Text
  | .csharp => ["CS", "CSHARP", "C#"]
  | .visualBasic => ["VB", "VISUALBASIC"]
  | .tsql => ["TSQL", "SQL"]
  | .etl => ["ETL"]
  | .cobol => ["COBOL", "COB"]

/-- The language of a name, in any letter case and with blanks around it. -/
def parse? (name : Text) : Option Language :=
  let name := Text.upper (Text.trim name)
  all.find? fun l => l.names.contains name

/-- A language is found by the name it is shown by. -/
theorem parse?_id (l : Language) : parse? l.id = some l := by cases l <;> decide

end Language

/-- The attributes that describe a project. -/
inductive Attribute where
  | title
  | description
  | company
  | version
  | semanticVersion
  deriving DecidableEq, Repr

namespace Attribute

/-- All attributes, in the order in which a line is searched for them. -/
def all : List Attribute := [.title, .description, .company, .version, .semanticVersion]

/-- The name of an attribute. -/
def name : Attribute → Text
  | .title => "Title"
  | .description => "Description"
  | .company => "Company"
  | .version => "Version"
  | .semanticVersion => "SemanticVersion"

end Attribute

/-- The texts by which a language's info file names the attributes. -/
structure Markers where
  title : Text
  description : Text
  company : Text
  version : Text
  semanticVersion : Text
  /-- A second numeric version, stamped with the first and never reported. -/
  fileVersion : Option Text
  deriving DecidableEq, Repr

namespace Markers

/-- The marker of an attribute. -/
def of (m : Markers) : Attribute → Text
  | .title => m.title
  | .description => m.description
  | .company => m.company
  | .version => m.version
  | .semanticVersion => m.semanticVersion

/-- The markers of all attributes. -/
def all (m : Markers) : List Text := Attribute.all.map m.of

/-- The markers of the lines that carry a version. -/
def versions (m : Markers) : List Text := [m.version, m.semanticVersion] ++ m.fileVersion.toList

/-- The first attribute whose marker is on the line. -/
def attributeIn? (m : Markers) (line : Text) : Option Attribute :=
  Attribute.all.find? fun a => Text.contains (m.of a) line

/-- Whether the line carries the marker of the second version. -/
def isFileVersion (m : Markers) (line : Text) : Bool := m.fileVersion.any fun f => Text.contains f line

/-- Attributes of assemblies. -/
def assembly : Markers :=
  ⟨"AssemblyTitle", "AssemblyDescription", "AssemblyCompany", "AssemblyVersion",
    "AssemblyInformationalVersion", some "AssemblyFileVersion".toList⟩

/-- Attributes of database projects. -/
def database : Markers :=
  ⟨"DbTitle", "DbDescription", "DbCompany", "DbVersion", "DbInformationalVersion", none⟩

/-- Attributes of ETL projects. -/
def etl : Markers :=
  ⟨"EtlTitle", "EtlDescription", "EtlCompany", "EtlVersion", "EtlInformationalVersion", none⟩

/-- Attributes of COBOL assemblies. -/
def cobol : Markers :=
  ⟨"CA-ASSEMBLYTITLE", "CA-ASSEMBLYDESCRIPTION", "CA-ASSEMBLYCOMPANY", "CA-ASSEMBLYVERSION",
    "CA-ASSEMBLYINFORMATIONALVERSION", some "CA-ASSEMBLYFILEVERSION".toList⟩

end Markers

/-- What sets a language's projects apart. -/
structure Profile where
  language : Language
  /-- What an info file of the language describes. -/
  task : Text
  /-- The names on the way from the project directory to the info file. -/
  infoFile : List Text
  markers : Markers
  /-- What makes a line a comment. -/
  comments : List Text
  /-- Whether a comment marker counts only where the code of a line begins. -/
  commentsLead : Bool
  /-- Markers of which a declaration must carry one; with none, every line of code may declare. -/
  required : List Text
  /-- Whether a declaration goes on to the next line. -/
  joinsNextLine : Bool
  /-- Whether the attributes can be read from the build output. -/
  compiled : Bool
  deriving DecidableEq, Repr

namespace Profile

/-- The info file, seen from the project directory. -/
def infoFilePath (p : Profile) : Path := p.infoFile.foldl Path.join []

/-- The info file of the project in `projectDir`. -/
def infoFileAt (p : Profile) (projectDir : Path) : Path := Path.join projectDir p.infoFilePath

/-- Whether the line is no comment. -/
def isUncommented (p : Profile) (line : Text) : Bool :=
  if p.commentsLead then !p.comments.any fun m => m.isPrefixOf (Text.trimStart line)
  else !Text.containsAny p.comments line

/-- Whether the line may declare something. -/
def mayDeclare (p : Profile) (line : Text) : Bool :=
  p.isUncommented line && (p.required.isEmpty || Text.containsAny p.required line)

/-- Whether the line may declare an attribute. -/
def declaresAttribute (p : Profile) (line : Text) : Bool :=
  p.mayDeclare line && (p.required.isEmpty || Text.containsAny p.markers.all line)

/-- Whether the line declares a version. -/
def declaresVersion (p : Profile) (line : Text) : Bool :=
  p.mayDeclare line && Text.containsAny p.markers.versions line

end Profile

/-- The profile of a language. -/
def Language.profile : Language → Profile
  | .csharp =>
    ⟨.csharp, "assembly", ["Properties", "AssemblyInfo.cs"], .assembly, ["//"], false, [], false, true⟩
  | .visualBasic =>
    ⟨.visualBasic, "assembly", ["My Project", "AssemblyInfo.vb"], .assembly, ["'"], false, [], false,
      true⟩
  | .tsql =>
    ⟨.tsql, "database", ["Properties", "DbInfo.db"], .database, ["//", "--"], false, [], false, false⟩
  | .etl => ⟨.etl, "ETL", ["EtlInfo.etl"], .etl, ["//", "--"], false, [], false, false⟩
  | .cobol =>
    ⟨.cobol, "COBOL assembly", ["Properties", "AssemblyInfo.cob"], .cobol, ["*>"], true,
      ["CUSTOM-ATTRIBUTE"], true, false⟩

end Nameplate
