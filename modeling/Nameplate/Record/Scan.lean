/-
# Reading the metadata from an info file

The declarations of an info file are read in order. A title, description or
company replaces the one before it. Versions come in two kinds, and the first
one declared decides: after a plain version the last declaration wins; after a
semantic version the first value that is not blank stays.

Bytes that are no text do not disturb the reading; a stream that breaks does.

Key definitions: `Scan.step`, `Record.scan`.
-/
import Nameplate.Line.Group
import Nameplate.Language
import Nameplate.Record
import Nameplate.Text.Quoted

namespace Nameplate

/-- What has been read so far: the fields, and the kind of the first version declared. -/
structure Scan where
  record : Record := {}
  first : Option Attribute := none
  deriving DecidableEq, Repr

namespace Scan

/-- A declaration of a version of the given kind. -/
def acceptVersion (kind : Attribute) (value : Text) (s : Scan) : Scan :=
  let first := s.first.getD kind
  if first = .semanticVersion && !Text.isBlank s.record.version then { s with first := some first }
  else { record := { s.record with version := value }, first := some first }

/-- The state after one logical line. -/
def step (m : Markers) (s : Scan) (line : Text) : Scan :=
  let value := Text.quoted line
  match m.attributeIn? line with
  | none => s
  | some .title => { s with record := { s.record with title := value } }
  | some .description => { s with record := { s.record with description := value } }
  | some .company => { s with record := { s.record with company := value } }
  | some .version => acceptVersion .version value s
  | some .semanticVersion => acceptVersion .semanticVersion value s

/-- The state after the declarations among logical lines. -/
def run (m : Markers) (s : Scan) (groups : List Group) : Scan :=
  (groups.filter Group.declares).foldl (fun s g => step m s g.text) s

end Scan

/-- The metadata an info file declares. -/
def Record.scan (p : Profile) (source : Source) : Except ReadFault Record :=
  let reading := source.lossy
  match reading.failure with
  | some fault => .error fault
  | none => .ok (Scan.run p.markers {} (reading.groups p.declaresAttribute p.joinsNextLine)).record

/-- A stream that breaks yields no record, whatever it delivered before. -/
theorem Record.scan_of_failure (p : Profile) {s : Source} {f : Text} (h : s.failure = some f) :
    Record.scan p s = .error (.system f) := by
  simp [Record.scan, Source.lossy, Source.fault, h]

end Nameplate
