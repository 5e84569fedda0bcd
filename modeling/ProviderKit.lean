import ProviderKit.Interpreter
import ProviderKit.Text.Basic
import ProviderKit.Text.Blank
import ProviderKit.Text.Lines
import ProviderKit.Text.Utf8
import ProviderKit.Text.Printable
import ProviderKit.Text.Quoted
import ProviderKit.Number.Binary64
import ProviderKit.Number.Shortest
import ProviderKit.Value.Basic
import ProviderKit.Value.Quoted
import ProviderKit.Json.Basic
import ProviderKit.Json.Reader
import ProviderKit.Json.Writer
import ProviderKit.Yaml.Cursor
import ProviderKit.Yaml.Scalar
import ProviderKit.Yaml.Token
import ProviderKit.Yaml.Tag
import ProviderKit.Yaml.Node
import ProviderKit.Yaml.Reader
import ProviderKit.Disk.Basic
import ProviderKit.Disk.Fault
import ProviderKit.Disk.Walk
import ProviderKit.Disk.Change
import ProviderKit.Disk.Real
import ProviderKit.Schema.Basic
import ProviderKit.Schema.Shape
import ProviderKit.Disk.TextFile
import ProviderKit.Problem
import ProviderKit.Archive.Fault
import ProviderKit.Declaration.Basic
import ProviderKit.Declaration.Printer
import ProviderKit.Failure
import ProviderKit.Release.Tag
import ProviderKit.Schema.Document
import ProviderKit.Declaration.Shape
import ProviderKit.Package.Basic
import ProviderKit.Disk.AtomicWrite
import ProviderKit.Settings
import ProviderKit.Archive.Pack
import ProviderKit.Build.Pipeline
import ProviderKit.Archive.Filter
import ProviderKit.Archive.Unpack
import ProviderKit.Install
import ProviderKit.Console.Basic
import ProviderKit.Process.Basic
import ProviderKit.Process.Lookup
import ProviderKit.Process.Runner
import ProviderKit.Text.Lossless
import ProviderKit.CommandLine.Request
import ProviderKit.Program
import ProviderKit.Main
import ProviderKit.Compressed.Inflate
import ProviderKit.Shell.Machine
import ProviderKit.Proofs.Text.Utf8
import ProviderKit.Proofs.Run.Perform
import ProviderKit.Proofs.Package.Discovery
import ProviderKit.Proofs.Disk.View
import ProviderKit.Proofs.Disk.Walk
import ProviderKit.Proofs.Disk.WellFormed
import ProviderKit.Proofs.Disk.Removal
import ProviderKit.Proofs.Disk.Directory
import ProviderKit.Proofs.Disk.Writing
import ProviderKit.Proofs.Build.Stages
import ProviderKit.Proofs.Build.Cleanup
import ProviderKit.Proofs.Build.Trace
import ProviderKit.Proofs.Build.Workspace
import ProviderKit.Proofs.Build.Generation
import ProviderKit.Proofs.Build.ArchivePath
import ProviderKit.Proofs.Build.Frame
import ProviderKit.Proofs.Disk.Placing
import ProviderKit.Proofs.Number.Rounding
import ProviderKit.Proofs.Number.Shortest
import ProviderKit.Proofs.Number.Spelling
import ProviderKit.Proofs.Json.Number
import ProviderKit.Proofs.Json.Quoted
import ProviderKit.Proofs.Json.RoundTrip
import ProviderKit.Proofs.Json.Readable
import ProviderKit.Proofs.Json.Written
import ProviderKit.Proofs.Build.StagedFiles
import ProviderKit.Proofs.Build.Handover
import ProviderKit.Proofs.Disk.Alike
import ProviderKit.Proofs.Disk.Carried
import ProviderKit.Proofs.Archive.Unpacking
import ProviderKit.Proofs.Disk.Renewal
import ProviderKit.Proofs.Disk.Compared
import ProviderKit.Proofs.Install.Steps
import ProviderKit.Proofs.Install.Replacement
import ProviderKit.Proofs.Install.Neighbours
import ProviderKit.Proofs.Text.Pieces
import ProviderKit.Proofs.Text.Order
import ProviderKit.Proofs.Disk.Listing
import ProviderKit.Proofs.Disk.Names
import ProviderKit.Proofs.Archive.Packing
import ProviderKit.Proofs.Build.Version
import ProviderKit.Proofs.Text.Lossless
import ProviderKit.Proofs.Disk.Resolving
import ProviderKit.Proofs.Disk.RealPath
import ProviderKit.Proofs.Archive.Containment
import ProviderKit.Proofs.Archive.Filling
import ProviderKit.Proofs.Install.RoundTrip
import ProviderKit.Proofs.Declaration.Reference
import ProviderKit.Proofs.Text.Lines
import ProviderKit.Proofs.Declaration.Reading
import ProviderKit.Proofs.Disk.Parts
import ProviderKit.Proofs.Disk.Confinement
import ProviderKit.Proofs.Disk.RealWalk
import ProviderKit.Proofs.Archive.Confined
import ProviderKit.Proofs.Archive.Accepted
import ProviderKit.Proofs.Install.Freshening
import ProviderKit.Proofs.Install.Confinement
import ProviderKit.Proofs.Disk.Agreement
import ProviderKit.Proofs.Archive.Trees
import ProviderKit.Proofs.Build.Upkeep
import ProviderKit.Proofs.Build.Installation
import ProviderKit.Proofs.Schema.Shape
import ProviderKit.Proofs.Schema.Erasure
import ProviderKit.Proofs.Declaration.Naming
import ProviderKit.Proofs.Disk.Replacing
import ProviderKit.Proofs.Disk.Skirting
import ProviderKit.Proofs.Build.Regeneration
import ProviderKit.Proofs.Text.Surrogates
import ProviderKit.Proofs.Build.Foreseen
import ProviderKit.Proofs.Program.Conclusion
import ProviderKit.Proofs.Build.Retention
import ProviderKit.Proofs.Disk.SameTree
import ProviderKit.Proofs.Build.SamePackage
import ProviderKit.Proofs.Build.Dependence
import ProviderKit.Proofs.CommandLine.Flags
import ProviderKit.Proofs.Program.Verbosity
import ProviderKit.Proofs.Program.Exit
import ProviderKit.Proofs.Disk.AllOrNothing
import ProviderKit.Proofs.Json.Encodable
import ProviderKit.Proofs.Release.Grammar
import ProviderKit.Proofs.Build.Revision
import ProviderKit.Proofs.Package.Foreseen
import ProviderKit.Proofs.Process.Outcome
import ProviderKit.Proofs.Build.Tools
import ProviderKit.Proofs.Process.Ambient
import ProviderKit.Proofs.Disk.Nameable
import ProviderKit.Proofs.Program.Directory
import ProviderKit.Proofs.Build.Rejection
import ProviderKit.Proofs.Schema.Writable
import ProviderKit.Proofs.Build.Echo
import ProviderKit.Proofs.Program.Relay
import ProviderKit.Proofs.Archive.Canonical
import ProviderKit.Proofs.Install.Naming
import ProviderKit.Proofs.Path.Shown
import ProviderKit.Proofs.Console.Literal
import ProviderKit.Proofs.Settings.Canonical
