/-
# Package documents

A nuspec document lists what identifies a package, the packages it depends on
and the files it is made of. In text and attribute values the five characters
that XML gives a meaning are written as entities, so no value can be taken for
markup. A package without dependencies has no such section; one without files
has an empty one.

Key definitions: `Package`, `Xml.escape`, `Package.document`.
-/
import Nameplate.Nuspec.Entry

namespace Nameplate

/-- A file of a package and the folder it goes to. -/
structure PackedFile where
  src : Text
  target : Text
  deriving DecidableEq, Repr

/-- A package. -/
structure Package where
  id : Text
  description : Text
  authors : Text
  version : Text
  dependencies : List Dependency
  files : List PackedFile
  deriving DecidableEq, Repr

/-- A character as XML writes it. -/
def Xml.escapeChar : Char → Text
  | '&' => "&amp;"
  | '<' => "&lt;"
  | '>' => "&gt;"
  | '"' => "&quot;"
  | '\'' => "&apos;"
  | c => [c]

/-- A text as XML writes it, in content and in quoted attributes. -/
def Xml.escape (t : Text) : Text := t.flatMap Xml.escapeChar

namespace Package

/-- The name of a package's document. -/
def fileName (p : Package) : Text := p.id ++ ".nuspec"

/-- A line with an element that holds text. -/
def elementLine (tag value : Text) : Text :=
  "    <" ++ tag ++ ">" ++ Xml.escape value ++ "</" ++ tag ++ ">\n"

/-- A line with an element that has two attributes. -/
def attributeLine (indent tag first firstValue second secondValue : Text) : Text :=
  indent ++ "<" ++ tag ++ " " ++ first ++ "=\"" ++ Xml.escape firstValue ++ "\" " ++ second ++ "=\"" ++
    Xml.escape secondValue ++ "\" />\n"

/-- The section that lists the dependencies. -/
def dependencySection (ds : List Dependency) : Text :=
  if ds = [] then []
  else
    "    <dependencies>\n" ++
      ds.flatMap (fun d => attributeLine "      " "dependency" "id" d.id "version" d.version) ++
      "    </dependencies>\n"

/-- The section that lists the files. -/
def fileSection (fs : List PackedFile) : Text :=
  if fs = [] then "  <files />\n"
  else
    "  <files>\n" ++ fs.flatMap (fun f => attributeLine "    " "file" "src" f.src "target" f.target) ++
      "  </files>\n"

/-- The document of a package, without a line feed after its last line. -/
def document (p : Package) : Text :=
  "<?xml version=\"1.0\" encoding=\"utf-8\"?>\n" ++ "<package>\n" ++ "  <metadata>\n" ++
    elementLine "id" p.id ++ elementLine "description" p.description ++
    elementLine "authors" p.authors ++ elementLine "version" p.version ++
    dependencySection p.dependencies ++ "  </metadata>\n" ++ fileSection p.files ++ "</package>"

end Package
end Nameplate
