import Reanalysis.Cache.Artifact
import Reanalysis.Cache.Sidecar
import Reanalysis.Cache.Store
import Reanalysis.Clock.Duration
import Reanalysis.Clock.Instant
import Reanalysis.CommandLine.Answer
import Reanalysis.CommandLine.Help
import Reanalysis.CommandLine.Options
import Reanalysis.CommandLine.Report
import Reanalysis.CommandLine.Request
import Reanalysis.Config.Basic
import Reanalysis.Config.Reading
import Reanalysis.Config.Validation
import Reanalysis.Corpus.Basic
import Reanalysis.Decimal.Binary
import Reanalysis.Decimal.Layout
import Reanalysis.Decimal.Shortest
import Reanalysis.Diff.Alignment
import Reanalysis.Diff.Change
import Reanalysis.Diff.Computation
import Reanalysis.Diff.Document
import Reanalysis.Diff.Plan
import Reanalysis.Diff.Scripts
import Reanalysis.Digest.Basic
import Reanalysis.Digest.Blake3
import Reanalysis.Engine.Command
import Reanalysis.Engine.Runner
import Reanalysis.Engine.Scripted
import Reanalysis.Files.Basic
import Reanalysis.Files.Location
import Reanalysis.Harness.Basic
import Reanalysis.Harness.Calibration
import Reanalysis.Harness.Step
import Reanalysis.Harness.Workflow
import Reanalysis.Json.Number
import Reanalysis.Json.Reader
import Reanalysis.Json.Record
import Reanalysis.Json.Value
import Reanalysis.Log.Basic
import Reanalysis.Main
import Reanalysis.Program.Id
import Reanalysis.Program.Metrics
import Reanalysis.Program.Scan
import Reanalysis.Proofs.Action
import Reanalysis.Proofs.Address
import Reanalysis.Proofs.Alignment
import Reanalysis.Proofs.BranchReport
import Reanalysis.Proofs.Cache.Ledger
import Reanalysis.Proofs.Cache.Overwriting
import Reanalysis.Proofs.Cache.Produced
import Reanalysis.Proofs.Cache.Reading
import Reanalysis.Proofs.Cache.Rooms
import Reanalysis.Proofs.Cache.Slots
import Reanalysis.Proofs.Cache.Traces
import Reanalysis.Proofs.Cache.Vacant
import Reanalysis.Proofs.ChangeOrder
import Reanalysis.Proofs.Clock
import Reanalysis.Proofs.Comparison
import Reanalysis.Proofs.Discovery
import Reanalysis.Proofs.Document
import Reanalysis.Proofs.Duration
import Reanalysis.Proofs.Entries
import Reanalysis.Proofs.Equivalence
import Reanalysis.Proofs.Execution
import Reanalysis.Proofs.Files.Location
import Reanalysis.Proofs.Files.Place
import Reanalysis.Proofs.Files.Removal
import Reanalysis.Proofs.Files.Stored
import Reanalysis.Proofs.Harness.Batch
import Reanalysis.Proofs.Harness.Calibration
import Reanalysis.Proofs.Harness.Changes
import Reanalysis.Proofs.Harness.Commands
import Reanalysis.Proofs.Harness.Concurrent
import Reanalysis.Proofs.Harness.Contract
import Reanalysis.Proofs.Harness.Course
import Reanalysis.Proofs.Harness.Events
import Reanalysis.Proofs.Harness.Exploration
import Reanalysis.Proofs.Harness.Foreseen
import Reanalysis.Proofs.Harness.Fuzzing
import Reanalysis.Proofs.Harness.History
import Reanalysis.Proofs.Harness.Interference
import Reanalysis.Proofs.Harness.Lines
import Reanalysis.Proofs.Harness.Orders
import Reanalysis.Proofs.Harness.Quiet
import Reanalysis.Proofs.Harness.Reordering
import Reanalysis.Proofs.Harness.Requested
import Reanalysis.Proofs.Harness.Skipped
import Reanalysis.Proofs.Harness.Stage
import Reanalysis.Proofs.Harness.Step
import Reanalysis.Proofs.Harness.Summary
import Reanalysis.Proofs.Harness.Targeted
import Reanalysis.Proofs.Json.Balance
import Reanalysis.Proofs.Json.Decimal
import Reanalysis.Proofs.Json.Grounded
import Reanalysis.Proofs.Json.Token
import Reanalysis.Proofs.Json.Typed
import Reanalysis.Proofs.Json.Values
import Reanalysis.Proofs.Json.Yields
import Reanalysis.Proofs.Layout
import Reanalysis.Proofs.Log.Line
import Reanalysis.Proofs.Log.Record
import Reanalysis.Proofs.Log.Recovery
import Reanalysis.Proofs.Log.SkipRecovery
import Reanalysis.Proofs.Log.Skips
import Reanalysis.Proofs.Log.Writing
import Reanalysis.Proofs.Magnitude
import Reanalysis.Proofs.Parting
import Reanalysis.Proofs.PathOrder
import Reanalysis.Proofs.PathText
import Reanalysis.Proofs.Precedence
import Reanalysis.Proofs.Report.Accounts
import Reanalysis.Proofs.Report.Interleaving
import Reanalysis.Proofs.Report.Joined
import Reanalysis.Proofs.Report.Sampled
import Reanalysis.Proofs.Report.Summary
import Reanalysis.Proofs.Report.Tally
import Reanalysis.Proofs.Report.Timing
import Reanalysis.Proofs.Residue
import Reanalysis.Proofs.Resumption
import Reanalysis.Proofs.Reuse
import Reanalysis.Proofs.Script.Blank
import Reanalysis.Proofs.Script.Start
import Reanalysis.Proofs.Script.Symbols
import Reanalysis.Proofs.Sites
import Reanalysis.Proofs.Subsequence
import Reanalysis.Proofs.Text
import Reanalysis.Proofs.Truncation
import Reanalysis.Proofs.Wire
import Reanalysis.Record.Error
import Reanalysis.Report.Coverage
import Reanalysis.Report.Overhead
import Reanalysis.Report.Summary
import Reanalysis.Report.Tally
import Reanalysis.Report.Targeted
import Reanalysis.Report.Timing
import Reanalysis.Run.Basic
import Reanalysis.Run.BranchReport
import Reanalysis.Run.Mode
import Reanalysis.Run.Sample
import Reanalysis.Run.Skip
import Reanalysis.Script.Automaton
import Reanalysis.Script.Grammar
import Reanalysis.Script.Lexeme
import Reanalysis.Script.Lookahead
import Reanalysis.Script.Node
import Reanalysis.Script.Parsing
import Reanalysis.Script.Phrase
import Reanalysis.Script.Production
import Reanalysis.Script.Program
import Reanalysis.Script.Rule
import Reanalysis.Script.Semicolon
import Reanalysis.Script.Stack
import Reanalysis.Script.Token
import Reanalysis.Shell.Arithmetic
import Reanalysis.Shell.Builtin
import Reanalysis.Shell.Condition
import Reanalysis.Shell.Escape
import Reanalysis.Shell.Evaluation
import Reanalysis.Shell.Expansion
import Reanalysis.Shell.Launch
import Reanalysis.Shell.Pattern
import Reanalysis.Shell.Reading
import Reanalysis.Shell.Script
import Reanalysis.Shell.Signal
import Reanalysis.Shell.Source
import Reanalysis.Shell.State
import Reanalysis.Shell.Utility
import Reanalysis.Shell.Words
import Reanalysis.Store.Action
import Reanalysis.Store.Overhead
import Reanalysis.Text.Blank
import Reanalysis.Text.Bytes
import Reanalysis.Text.Digit
import Reanalysis.Text.Scanner
import Reanalysis.Text.Split
import Reanalysis.Toml.Document
import Reanalysis.Toml.Quoted
import Reanalysis.Toml.Scalar
import Reanalysis.Toml.Value
import Reanalysis.Tree.Path
import Reanalysis.Tree.Statement
