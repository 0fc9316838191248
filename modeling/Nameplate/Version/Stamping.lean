/-
# Stamping the versions of an info file

Every logical line that declares a version is stamped; all other lines are
copied. Which rule stamps a line depends on the options and, without a new
development version, on whether a semantic version has been declared so far,
this line included: until then, and on every line with the second version, the
numeric rule holds; afterwards the rule for releases or for development.

A pair of lines is stamped as one text and cut in two again. When the value
ends on the first line, the cut moves with the length of the value; otherwise
it stays where it was, no later than the end and never inside a character.

The version of the file is the value of the last stamped line that does not
carry the second version.

Key definitions: `Stamping.ruleFor`, `Stamping.cut`, `Stamping.stampGroups`,
`stampSource`.
-/
import Nameplate.Failure
import Nameplate.Line.Group
import Nameplate.Version.Next

namespace Nameplate

/-- What a stamping is to do. -/
structure StampOptions where
  /-- What is put where a numeric version has a placeholder. -/
  versionPart : Option Text := none
  isRelease : Bool := false
  /-- The version that a release has instead of its own. -/
  releaseVersion : Option Text := none
  /-- The version with which development starts anew. -/
  newDevelopment : Option Text := none
  now : Moment
  deriving DecidableEq, Repr

/-- An info file after stamping, and what is known of its version. -/
structure Stamped where
  content : Text
  version : Text
  isSemantic : Bool
  next : Upcoming
  path : Path
  deriving DecidableEq, Repr

namespace Stamping

/-- The rules that stamp a line. -/
inductive Rule where
  | newSemantic (version : Text)
  | newNumeric (version : Text)
  | numeric
  | release
  | development
  deriving DecidableEq, Repr

/-- The rule for a line; `semantic` says whether a semantic version has been declared. -/
def ruleFor (m : Markers) (o : StampOptions) (semantic : Bool) (line : Text) : Rule :=
  match o.newDevelopment with
  | some v => if Text.contains m.semanticVersion line then .newSemantic v else .newNumeric v
  | none =>
    if m.isFileVersion line || !semantic then .numeric
    else if o.isRelease then .release
    else .development

/-- The stamped line; `none` when a number is to be filled in and nothing was given to put there. -/
def Rule.apply (o : StampOptions) : Rule → Text → Option Text
  | .newSemantic v, line => some (Template.newSemantic v line)
  | .newNumeric v, line => some (Template.newNumeric v line)
  | .numeric, line => Template.numeric o.versionPart line
  | .release, line => some (Template.release o.releaseVersion line)
  | .development, line => some (Template.development o.now line)

/-- What has been learned on the way: whether a semantic version was declared, and the version of
the file. -/
structure State where
  semantic : Bool := false
  version : Option Text := none
  deriving DecidableEq, Repr

/-- The byte at which the first line of a stamped pair should end; `boundary` is where it ended
before. -/
def cutTarget (joined stamped : Text) (boundary : Nat) : Nat :=
  match Text.quotedExtent joined with
  | some (_, stop) =>
    if stop < boundary then boundary + Text.byteLength stamped - Text.byteLength joined else boundary
  | none => boundary

/-- A stamped pair, cut in two again. -/
def cut (joined stamped : Text) (boundary : Nat) : Text × Text :=
  Text.splitAtBytes (cutTarget joined stamped boundary) stamped

/-- Cutting loses nothing. -/
theorem cut_append (joined stamped : Text) (boundary : Nat) :
    (cut joined stamped boundary).1 ++ (cut joined stamped boundary).2 = stamped :=
  Text.splitAtBytes_append _ _

/-- The state after the line `line`, stamped as `stamped`. -/
def State.advance (m : Markers) (s : State) (line stamped : Text) : State where
  semantic := s.semantic || Text.contains m.semanticVersion line
  version := if m.isFileVersion line then s.version else some (Text.quoted stamped)

/-- The text of a version line after stamping, and the state after it. -/
def stampText (m : Markers) (o : StampOptions) (s : State) (line : Text) : Option (Text × State) :=
  let semantic := s.semantic || Text.contains m.semanticVersion line
  ((ruleFor m o semantic line).apply o line).map fun stamped => (stamped, s.advance m line stamped)

/-- The lines of a logical line after stamping, and the state after it. -/
def stampGroup (m : Markers) (o : StampOptions) (s : State) : Group → Option (List Line × State)
  | .other l => some ([l], s)
  | .single l => (stampText m o s l.text).map fun (stamped, s') => ([{ l with text := stamped }], s')
  | .pair a b =>
    (stampText m o s (a.text ++ b.text)).map fun (stamped, s') =>
      let (x, y) := cut (a.text ++ b.text) stamped (Text.byteLength a.text)
      ([{ a with text := x }, { b with text := y }], s')

/-- Stamps logical lines in order; `none` when a version part is wanting. -/
def stampGroups (m : Markers) (o : StampOptions) : State → List Group → Option (List Line × State)
  | s, [] => some ([], s)
  | s, g :: gs => do
    let (lines, s) ← stampGroup m o s g
    let (rest, s) ← stampGroups m o s gs
    some (lines ++ rest, s)

end Stamping

/-- Stamps the versions of an info file; `path` is the name it is reported by. A wanting version
part is noticed before the failure of a later line, and a failure before the lack of a version. -/
def stampSource (p : Profile) (o : StampOptions) (path : Path) (source : Source) :
    Except Failure Stamped :=
  let reading := source.strict
  match Stamping.stampGroups p.markers o {} (reading.groups p.declaresVersion p.joinsNextLine) with
  | none => .error (.settings (.noVersionPart path))
  | some (lines, state) =>
    match reading.failure, state.version with
    | some fault, _ => .error (.system fault)
    | none, none => .error (.project (.noVersion path))
    | none, some version =>
      .ok {
        content := Line.join lines
        version
        isSemantic := state.semantic
        next := upcoming version o.isRelease
        path }

end Nameplate
