import EnvFiles.Assignment
import EnvFiles.Canonical
import EnvFiles.Ci
import EnvFiles.Comment.Meaning
import EnvFiles.Comment.Pending
import EnvFiles.Comment.Tag
import EnvFiles.Comparison
import EnvFiles.Config.Basic
import EnvFiles.Config.File
import EnvFiles.Config.Reading
import EnvFiles.Config.Search
import EnvFiles.Data.Basic
import EnvFiles.Data.Fault
import EnvFiles.Data.Formats
import EnvFiles.Data.Fraction.Basic
import EnvFiles.Data.Fraction.Shortest
import EnvFiles.Data.Fraction.Shown
import EnvFiles.Data.Json
import EnvFiles.Data.JsonText
import EnvFiles.Data.Moment
import EnvFiles.Data.Numeral
import EnvFiles.Data.Toml
import EnvFiles.Data.Toml.Scalar
import EnvFiles.Data.Toml.Time
import EnvFiles.Data.Toml.Value
import EnvFiles.Data.Yaml
import EnvFiles.Data.Yaml.Cursor
import EnvFiles.Data.Yaml.Part
import EnvFiles.Data.Yaml.Quoted
import EnvFiles.Data.Yaml.Scalar
import EnvFiles.Data.Yaml.Time
import EnvFiles.Data.Yaml.Token
import EnvFiles.Definition
import EnvFiles.Desk
import EnvFiles.Discovery.Patterns
import EnvFiles.Discovery.Workspaces
import EnvFiles.Example
import EnvFiles.Failure
import EnvFiles.Notice
import EnvFiles.Path
import EnvFiles.Plugin.Basic
import EnvFiles.Plugin.Loading
import EnvFiles.Plugin.Pattern
import EnvFiles.Plugin.Registry
import EnvFiles.Resolution.Builtin
import EnvFiles.Resolution.Dialogue
import EnvFiles.Resolution.Pass
import EnvFiles.Scan.Diagnosis
import EnvFiles.Scan.Memory
import EnvFiles.Scan.Result
import EnvFiles.Scan.Usage
import EnvFiles.Scan.Walk
import EnvFiles.Store.Assembly
import EnvFiles.Store.Basic
import EnvFiles.Store.Logged
import EnvFiles.Store.OnTree
import EnvFiles.Store.Rehearsal
import EnvFiles.Table
import EnvFiles.Text.Basic
import EnvFiles.Text.Case
import EnvFiles.Text.Codes
import EnvFiles.Text.Invisible
import EnvFiles.Text.Lines
import EnvFiles.Text.Quoted
import EnvFiles.Text.Word
import EnvFiles.Tree.Build
import EnvFiles.Tree.Change
import EnvFiles.Tree.Glob
import EnvFiles.Tree.NamePattern
import EnvFiles.Tree.Node
import EnvFiles.Tree.Walk
import EnvFiles.Values.File
import EnvFiles.Values.Rewrite
import EnvFiles.Workflow.Check
import EnvFiles.Workflow.CiCheck
import EnvFiles.Workflow.Clean
import EnvFiles.Workflow.Diagnose
import EnvFiles.Workflow.Export
import EnvFiles.Workflow.Files
import EnvFiles.Workflow.Postinstall
import EnvFiles.Workflow.Reconcile
import EnvFiles.Workflow.Sync
import EnvFiles.Proofs.Assignment
import EnvFiles.Proofs.Table
import EnvFiles.Proofs.Values.Layout
import EnvFiles.Proofs.Values.Rewrite
import EnvFiles.Proofs.Values.RoundTrip
import EnvFiles.Proofs.Values.Spacing
import EnvFiles.Proofs.Values.LinesKept
import EnvFiles.Proofs.Values.Idempotence
import EnvFiles.Proofs.Attempt
import EnvFiles.Proofs.Store.View
import EnvFiles.Proofs.Workflow.Reading
import EnvFiles.Proofs.Workflow.Writes
import EnvFiles.Proofs.Example
import EnvFiles.Proofs.Resolution.Supply
import EnvFiles.Proofs.Workflow.Updating
import EnvFiles.Proofs.Workflow.Kept
import EnvFiles.Proofs.Workflow.SyncKept
import EnvFiles.Proofs.Store.Memory
import EnvFiles.Proofs.Resolution.Filling
import EnvFiles.Proofs.Resolution.Unattended
import EnvFiles.Proofs.Workflow.Settling
import EnvFiles.Proofs.Workflow.Convergence
import EnvFiles.Proofs.Workflow.Rounds
import EnvFiles.Proofs.Workflow.SyncPasses
import EnvFiles.Proofs.Workflow.SyncTwice
import EnvFiles.Proofs.Tree.Shape
import EnvFiles.Proofs.Tree.Walks
import EnvFiles.Proofs.Tree.Writing
import EnvFiles.Proofs.Store.OnTree
import EnvFiles.Proofs.Store.Rehearsal
import EnvFiles.Proofs.InStep
import EnvFiles.Proofs.Resolution.Alike
import EnvFiles.Proofs.Workflow.Shadowing
import EnvFiles.Proofs.Workflow.SyncRehearsed
import EnvFiles.Proofs.Resolution.Attended
import EnvFiles.Proofs.Workflow.Touching
import EnvFiles.Proofs.Workflow.Distribution
import EnvFiles.Proofs.Workflow.OwnPasses
import EnvFiles.Proofs.Workflow.SyncDistributed
import EnvFiles.Proofs.Workflow.Checking
import EnvFiles.Proofs.Workflow.SyncChecked
import EnvFiles.Proofs.Values.Declarations
import EnvFiles.Proofs.Workflow.Carried
import EnvFiles.Proofs.Workflow.Handed
import EnvFiles.Proofs.Workflow.Delivery
import EnvFiles.Proofs.Workflow.SyncOverrides
import EnvFiles.Proofs.Workflow.SyncAgrees
import EnvFiles.Proofs.Workflow.Atomic
import EnvFiles.Proofs.Workflow.Commuting
import EnvFiles.Proofs.Text.Case
import EnvFiles.Proofs.Text.Parts
import EnvFiles.Proofs.Comment.Tag
import EnvFiles.Proofs.Comment.Rendering
import EnvFiles.Proofs.Scan.Visits
import EnvFiles.Proofs.Tree.Named
import EnvFiles.Proofs.Scan.Files
import EnvFiles.Proofs.Workflow.Diagnosing
import EnvFiles.Proofs.Text.Occurrences
import EnvFiles.Proofs.Comment.Directive
import EnvFiles.Proofs.Comment.Level
import EnvFiles.Proofs.Comment.Meaning
import EnvFiles.Proofs.Example.Reading
import EnvFiles.Proofs.Values.LineEnds
import EnvFiles.Proofs.Values.Formatting
import EnvFiles.Proofs.Workflow.Exporting
import EnvFiles.Proofs.Workflow.CiAgreement
import EnvFiles.Proofs.Resolution.Calls
import EnvFiles.Proofs.Workflow.LineEnds
import EnvFiles.Proofs.Resolution.Claimant
import EnvFiles.Proofs.Workflow.Postinstall
import EnvFiles.Proofs.Workflow.Advancing
import EnvFiles.Proofs.Workflow.Calls
import EnvFiles.Proofs.Workflow.SyncCalls
import EnvFiles.Proofs.Workflow.SyncDescribed
import EnvFiles.Proofs.Workflow.SyncPopulation
import EnvFiles.Proofs.Workflow.Listing
import EnvFiles.Proofs.Workflow.UpdateTwice
import EnvFiles.Proofs.Example.Grammar
import EnvFiles.Proofs.Example.Concatenation
import EnvFiles.Proofs.Comparison
import EnvFiles.Proofs.Example.AsValues
import EnvFiles.Proofs.Example.Overriding
import EnvFiles.Proofs.Modes
import EnvFiles.Proofs.Canonical
import EnvFiles.Proofs.Workflow.Measuring
import EnvFiles.Proofs.Resolution.Placing
import EnvFiles.Proofs.Resolution.Bracketing
import EnvFiles.Proofs.Resolution.Asking
import EnvFiles.Proofs.Resolution.Literals
import EnvFiles.Proofs.Scan.Sightings
import EnvFiles.Proofs.Scan.Overlap
import EnvFiles.Proofs.Scan.WholeNames
import EnvFiles.Proofs.Plugin.Registry
import EnvFiles.Proofs.Plugin.Loading
import EnvFiles.Proofs.Scan.Diagnosis
import EnvFiles.Proofs.Workflow.Gathering
import EnvFiles.Proofs.Tree.Resolving
import EnvFiles.Proofs.Config.Holding
import EnvFiles.Proofs.Config.Search
import EnvFiles.Proofs.Config.Faults
import EnvFiles.Proofs.Tree.LinkFree
import EnvFiles.Proofs.Discovery.Current
import EnvFiles.Proofs.Tree.Removing
import EnvFiles.Proofs.Store.Deleting
import EnvFiles.Proofs.Workflow.Cleaning
import EnvFiles.Proofs.Config.Spelling
import EnvFiles.Proofs.Config.Respelling
import EnvFiles.Proofs.Scan.Patterns
import EnvFiles.Proofs.Scan.Merging
