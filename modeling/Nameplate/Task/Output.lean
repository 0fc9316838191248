/-
# What a task prints

A task prints a text for people or a report in JSON. It may print and still
end in a failure, which is reported after the text.

Key definitions: `Output`, `Output.lines`, `Output.json`.
-/
import Nameplate.Failure
import Nameplate.Json

namespace Nameplate

/-- What a task prints, and the failure it then ends in. -/
structure Output where
  text : Text
  failure : Option Failure := none
  deriving DecidableEq, Repr

namespace Output

/-- Lines of text. -/
def lines (ls : List Text) : Text := ls.flatMap (· ++ ['\n'])

/-- A report in JSON. -/
def json (members : List (Text × ReportValue)) : Text := Report.print members ++ ['\n']

end Output
end Nameplate
