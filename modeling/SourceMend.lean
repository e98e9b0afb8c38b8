import SourceMend.Catalog
import SourceMend.CommandLine.Mend
import SourceMend.CommandLine.Options
import SourceMend.CommandLine.Outcome
import SourceMend.CommandLine.Upkeep
import SourceMend.Diff.Compact
import SourceMend.Diff.Edit
import SourceMend.Diff.Hunk
import SourceMend.Diff.Search
import SourceMend.Digest
import SourceMend.Disk.Basic
import SourceMend.Disk.Commit
import SourceMend.Disk.Listing
import SourceMend.Exclusion
import SourceMend.Finding
import SourceMend.Glob
import SourceMend.Json.Basic
import SourceMend.Json.Fields
import SourceMend.Json.Printer
import SourceMend.Json.Reader
import SourceMend.Main
import SourceMend.Patch
import SourceMend.Path
import SourceMend.Pattern.Basic
import SourceMend.Pattern.Bracket
import SourceMend.Pattern.Cursor
import SourceMend.Pattern.Escape
import SourceMend.Pattern.Flags
import SourceMend.Pattern.Match
import SourceMend.Pattern.Node
import SourceMend.Pattern.Parser
import SourceMend.Pattern.Program
import SourceMend.Pattern.Utf8
import SourceMend.Pattern.Weight
import SourceMend.Repair
import SourceMend.Report.Basic
import SourceMend.Report.Decode
import SourceMend.Report.Encode
import SourceMend.Report.Print
import SourceMend.Report.Totals
import SourceMend.Rule.Apply
import SourceMend.Rule.Basic
import SourceMend.Rule.Capture
import SourceMend.Rule.Check
import SourceMend.Rule.Error
import SourceMend.Rule.File
import SourceMend.Rule.Print
import SourceMend.Rule.Spec
import SourceMend.Rule.Template
import SourceMend.RuleSet.Basic
import SourceMend.RuleSet.Build
import SourceMend.RuleSet.Listing
import SourceMend.Run.Artifacts
import SourceMend.Run.Basic
import SourceMend.Run.Clock
import SourceMend.Run.Job
import SourceMend.Scope.Dialect
import SourceMend.Scope.Frame
import SourceMend.Scope.Map
import SourceMend.Scope.Scanner
import SourceMend.Scope.Span
import SourceMend.Scope.Token
import SourceMend.Settings.Basic
import SourceMend.Settings.Config
import SourceMend.Settings.Rules
import SourceMend.Severity
import SourceMend.Tally
import SourceMend.Text.Alphabet
import SourceMend.Text.Basic
import SourceMend.Text.Casing
import SourceMend.Text.CharSet
import SourceMend.Text.Category
import SourceMend.Text.Hidden
import SourceMend.Text.Lines
import SourceMend.Text.Lossy
import SourceMend.Text.Quoted
import SourceMend.Toml.Basic
import SourceMend.Toml.Fields
import SourceMend.Toml.Reader
import SourceMend.Toml.Tree
import SourceMend.Validate
import SourceMend.Walk
import SourceMend.Proofs.Pattern.Path
import SourceMend.Proofs.Pattern.Meaning
import SourceMend.Proofs.Pattern.Layered
import SourceMend.Proofs.Catalog.Build
import SourceMend.Proofs.Catalog.Convergence
import SourceMend.Proofs.Catalog.Literals
import SourceMend.Proofs.RuleSet.Validation
import SourceMend.Proofs.RuleSet.Cycles
import SourceMend.Proofs.Disk.Protocol
import SourceMend.Proofs.Run.Truth
import SourceMend.Proofs.Run.Alone
import SourceMend.Proofs.Run.Scheduling
import SourceMend.Proofs.Run.DryRun
import SourceMend.Proofs.Run.Rerun
import SourceMend.Proofs.Walk.Spelling
import SourceMend.Proofs.Walk.Visits
import SourceMend.Proofs.Walk.Coverage
import SourceMend.Proofs.Json.RoundTrip
import SourceMend.Proofs.Json.Fields
import SourceMend.Proofs.Report.RoundTrip
import SourceMend.Proofs.Scope.Frames
import SourceMend.Proofs.Scope.Literal
import SourceMend.Proofs.Scope.Payload
import SourceMend.Proofs.Scope.Spans
import SourceMend.Proofs.Rule.Gaps
import SourceMend.Proofs.Rule.Greedy
import SourceMend.Proofs.Finding
import SourceMend.Proofs.RuleSet.Order
import SourceMend.Proofs.Run.Fingerprints
import SourceMend.Proofs.Scope.Nesting
import SourceMend.Proofs.Bytes.Slices
import SourceMend.Proofs.Bytes.Tiling
import SourceMend.Proofs.RuleSet.Shortcuts
import SourceMend.Proofs.RuleSet.Duplicates
import SourceMend.Proofs.RuleSet.Places
import SourceMend.Proofs.RuleSet.Selection
import SourceMend.Proofs.RuleSet.Rejection
import SourceMend.Proofs.Patch
import SourceMend.Proofs.Rule.Templates
import SourceMend.Proofs.Rule.Search
import SourceMend.Proofs.Walk.Narrowing
import SourceMend.Proofs.Tally.Totals
import SourceMend.Proofs.Report.Totals
import SourceMend.Proofs.Run.Totals
import SourceMend.Proofs.Scope.Stacks
import SourceMend.Proofs.Scope.Bisection
