import Nameplate.Files.Store
import Nameplate.Files.Tree
import Nameplate.Main
import Nameplate.Proofs.Line.Splitting
import Nameplate.Proofs.Line.Grouping
import Nameplate.Proofs.Version.Pointwise
import Nameplate.Proofs.Files.Frame
import Nameplate.Proofs.Files.Atomicity
import Nameplate.Proofs.Line.Returns
import Nameplate.Proofs.Text.Contains
import Nameplate.Proofs.Version.Chain
import Nameplate.Proofs.Version.Release
import Nameplate.Proofs.Record.Declared
import Nameplate.Proofs.Record.InfoFile
import Nameplate.Proofs.Record.Restamped
import Nameplate.Proofs.Version.Settled
import Nameplate.Proofs.Record.InStep
import Nameplate.Proofs.Files.Writing
import Nameplate.Proofs.Task.Agreement
import Nameplate.Proofs.Nuspec.Reading
import Nameplate.Proofs.Line.Physical
import Nameplate.Proofs.Line.Strict
import Nameplate.Proofs.Version.Outcome
import Nameplate.Proofs.Task.Broken
import Nameplate.Proofs.Version.FixedPoint
import Nameplate.Proofs.Files.Commuting
import Nameplate.Proofs.Text.Lossy
import Nameplate.Proofs.Line.Linewise
import Nameplate.Proofs.Version.Components
import Nameplate.Proofs.Version.NextDevelopment
import Nameplate.Proofs.Version.Clock
import Nameplate.Proofs.Version.Repeated
import Nameplate.Proofs.Record.Scanned
import Nameplate.Proofs.Version.Halves
import Nameplate.Proofs.Version.NewDevelopment
import Nameplate.Proofs.Record.Commented
import Nameplate.Proofs.Version.Filled
import Nameplate.Proofs.Version.Reported
import Nameplate.Proofs.Version.Successor
import Nameplate.Proofs.Version.Cycle
import Nameplate.Proofs.Version.Dots
import Nameplate.Proofs.Sonar.Entries
import Nameplate.Proofs.Path.Children
import Nameplate.Proofs.Nuspec.Placed
import Nameplate.Proofs.Failure.Context
import Nameplate.Proofs.Version.CutPoint
import Nameplate.Proofs.Version.Lens
import Nameplate.Proofs.Nuspec.Entries
import Nameplate.Proofs.Nuspec.Required
import Nameplate.Proofs.Diff.Script
