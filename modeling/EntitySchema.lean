import EntitySchema.Command.Arguments
import EntitySchema.Command.Basic
import EntitySchema.Command.Run
import EntitySchema.Dependency.Batch
import EntitySchema.Dependency.Graph
import EntitySchema.Dependency.Order
import EntitySchema.Dependency.Report
import EntitySchema.Diff.Axis
import EntitySchema.Diff.Field
import EntitySchema.Diff.Rename
import EntitySchema.Diff.Report
import EntitySchema.Diff.Schema
import EntitySchema.Field.Basic
import EntitySchema.Field.Operator
import EntitySchema.Grammar.Arrow
import EntitySchema.Grammar.Definition
import EntitySchema.Grammar.Modifier
import EntitySchema.Grammar.Plain
import EntitySchema.Grammar.Target
import EntitySchema.Grammar.Threshold
import EntitySchema.Grammar.Union
import EntitySchema.Json.Reader
import EntitySchema.Json.Writer
import EntitySchema.Main
import EntitySchema.Number.Binary64
import EntitySchema.Number.Magnitude
import EntitySchema.Number.Shortest
import EntitySchema.Proofs.Dependency.Agreement
import EntitySchema.Proofs.Dependency.Batch
import EntitySchema.Proofs.Dependency.Component
import EntitySchema.Proofs.Dependency.Cycles
import EntitySchema.Proofs.Dependency.Faithful
import EntitySchema.Proofs.Dependency.Graph
import EntitySchema.Proofs.Dependency.Inverse
import EntitySchema.Proofs.Dependency.Layer
import EntitySchema.Proofs.Dependency.Links
import EntitySchema.Proofs.Dependency.Optional
import EntitySchema.Proofs.Dependency.Order
import EntitySchema.Proofs.Dependency.Outcome
import EntitySchema.Proofs.Dependency.Reach
import EntitySchema.Proofs.Dependency.Survey
import EntitySchema.Proofs.Dependency.Walk
import EntitySchema.Proofs.Diff.Field
import EntitySchema.Proofs.Diff.Mirror
import EntitySchema.Proofs.Diff.Rename
import EntitySchema.Proofs.Diff.Schema
import EntitySchema.Proofs.Grammar.Arrow
import EntitySchema.Proofs.Grammar.Bracketed
import EntitySchema.Proofs.Grammar.Coherence
import EntitySchema.Proofs.Grammar.Modifier
import EntitySchema.Proofs.Grammar.Plain
import EntitySchema.Proofs.Grammar.Relation
import EntitySchema.Proofs.Grammar.Stripped
import EntitySchema.Proofs.Grammar.Suffix
import EntitySchema.Proofs.Grammar.Target
import EntitySchema.Proofs.Grammar.Threshold
import EntitySchema.Proofs.Grammar.Union
import EntitySchema.Proofs.Grammar.UnionThreshold
import EntitySchema.Proofs.Json.Number
import EntitySchema.Proofs.Json.RoundTrip
import EntitySchema.Proofs.Json.Text
import EntitySchema.Proofs.Number.Order
import EntitySchema.Proofs.Number.Rounding
import EntitySchema.Proofs.Resolve.Again
import EntitySchema.Proofs.Resolve.Backward
import EntitySchema.Proofs.Resolve.Calls
import EntitySchema.Proofs.Resolve.Decision
import EntitySchema.Proofs.Resolve.Forward
import EntitySchema.Proofs.Resolve.Frame
import EntitySchema.Proofs.Resolve.History
import EntitySchema.Proofs.Resolve.Nested
import EntitySchema.Proofs.Resolve.Reuse
import EntitySchema.Proofs.Resolve.Step
import EntitySchema.Proofs.Resolve.Threshold
import EntitySchema.Proofs.Schema.Assembly
import EntitySchema.Proofs.Schema.Backref
import EntitySchema.Proofs.Schema.Declaration
import EntitySchema.Proofs.Schema.Reference
import EntitySchema.Proofs.Schema.Storable
import EntitySchema.Proofs.Schema.TypeUri
import EntitySchema.Proofs.Schema.Union
import EntitySchema.Proofs.Search.Direct
import EntitySchema.Proofs.Search.Narrow
import EntitySchema.Proofs.Search.Ordered
import EntitySchema.Proofs.Search.Parallel
import EntitySchema.Proofs.Search.Rank
import EntitySchema.Proofs.Session
import EntitySchema.Proofs.Snapshot.Models
import EntitySchema.Proofs.Snapshot.RoundTrip
import EntitySchema.Proofs.Table
import EntitySchema.Proofs.Text.Numeral
import EntitySchema.Proofs.Text.Search
import EntitySchema.Proofs.Text.Split
import EntitySchema.Proofs.Text.Trim
import EntitySchema.Proofs.Validation
import EntitySchema.Proofs.Validation.Backref
import EntitySchema.Proofs.Value.Storable
import EntitySchema.Proofs.Workspace.Build
import EntitySchema.Proofs.Workspace.Coherence
import EntitySchema.Proofs.Workspace.Disk
import EntitySchema.Proofs.Workspace.Files
import EntitySchema.Proofs.Workspace.FirstBuild
import EntitySchema.Proofs.Workspace.Job
import EntitySchema.Proofs.Workspace.Names
import EntitySchema.Proofs.Workspace.Project
import EntitySchema.Proofs.Workspace.Save
import EntitySchema.Proofs.Workspace.Source
import EntitySchema.Resolve.Backward
import EntitySchema.Resolve.Call
import EntitySchema.Resolve.Forward
import EntitySchema.Resolve.Pending
import EntitySchema.Schema.Assembly
import EntitySchema.Schema.Backref
import EntitySchema.Schema.Basic
import EntitySchema.Schema.Declaration
import EntitySchema.Schema.EdgeRecord
import EntitySchema.Schema.Reference
import EntitySchema.Schema.System
import EntitySchema.Search.Match
import EntitySchema.Search.Options
import EntitySchema.Search.Union
import EntitySchema.Session
import EntitySchema.Snapshot.Lenient
import EntitySchema.Snapshot.Models
import EntitySchema.Snapshot.Reader
import EntitySchema.Snapshot.Writer
import EntitySchema.Sorted
import EntitySchema.Standard
import EntitySchema.Table
import EntitySchema.Text.Digit
import EntitySchema.Text.Printable
import EntitySchema.Text.Quoted
import EntitySchema.Text.Split
import EntitySchema.Text.Uppercase
import EntitySchema.Validation
import EntitySchema.Value.Basic
import EntitySchema.Value.Display
import EntitySchema.Workspace.Build
import EntitySchema.Workspace.Config
import EntitySchema.Workspace.Disk
import EntitySchema.Workspace.Job
import EntitySchema.Workspace.Path
import EntitySchema.Workspace.Source
import EntitySchema.Yaml.Cursor
import EntitySchema.Yaml.Document
import EntitySchema.Yaml.Node
import EntitySchema.Yaml.Plain
import EntitySchema.Yaml.Quoted
import EntitySchema.Yaml.Resolution
import EntitySchema.Yaml.Token
