import Workflow.Text.Capital
import Workflow.Value.Numeral
import Workflow.Value.Arithmetic
import Workflow.Value.Fault
import Workflow.Json.Reader
import Workflow.Json.Printer
import Workflow.Guard.Parser
import Workflow.Guard.Check
import Workflow.Context
import Workflow.Event
import Workflow.Document.Loading
import Workflow.Document.Dump
import Workflow.Policy
import Workflow.Registry
import Workflow.Board
import Workflow.Machine
import Workflow.Pool
import Workflow.Catalog
import Workflow.Handler.Default
import Workflow.Rehearsal.Step
import Workflow.Settings.Catalog
import Workflow.Main
import Workflow.Log.Threshold
import Workflow.Proofs.Guard.Grammar
import Workflow.Proofs.Guard.Parsing
import Workflow.Proofs.Guard.Overlong
import Workflow.Proofs.Context.Path
import Workflow.Proofs.Document.Valid
import Workflow.Proofs.Document.Widened
import Workflow.Proofs.Call.Deed
import Workflow.Proofs.Call.Course
import Workflow.Proofs.Call.CarryOn
import Workflow.Proofs.Call.Early
import Workflow.Proofs.Board.Handed
import Workflow.Proofs.Pool.Run
import Workflow.Proofs.Pool.Locks
import Workflow.Proofs.Engine.Journal
import Workflow.Proofs.Engine.Trail
import Workflow.Proofs.Engine.Steady
import Workflow.Proofs.Engine.Lane
import Workflow.Proofs.Engine.Turn
import Workflow.Proofs.Engine.Serial
import Workflow.Proofs.Engine.Script
import Workflow.Proofs.Engine.Sound
import Workflow.Proofs.Engine.Keeping
import Workflow.Proofs.Engine.Observed
import Workflow.Proofs.Call.Beside
import Workflow.Proofs.Call.Merged
import Workflow.Proofs.Call.Abort
import Workflow.Proofs.Call.Reduced
import Workflow.Proofs.Pool.Reach
import Workflow.Proofs.Engine.Told
import Workflow.Proofs.Call.Defined
import Workflow.Proofs.Engine.Telling
import Workflow.Proofs.Engine.Defined
import Workflow.Proofs.Board.Receipt
import Workflow.Proofs.Call.Announced
import Workflow.Proofs.Engine.Served
import Workflow.Proofs.Engine.UpToDate
import Workflow.Proofs.Context.Merge
import Workflow.Proofs.Context.Combine
import Workflow.Proofs.Call.Written
import Workflow.Proofs.Engine.Waiting
import Workflow.Proofs.Engine.Recorded
import Workflow.Proofs.Board.Numbered
import Workflow.Proofs.Call.Entered
import Workflow.Proofs.Engine.Notified
import Workflow.Proofs.Pool.Flat
import Workflow.Proofs.Engine.Silent
import Workflow.Proofs.Pool.Heed
import Workflow.Proofs.Engine.Refusing
import Workflow.Proofs.Engine.Nested
import Workflow.Proofs.Engine.Relaxed
import Workflow.Proofs.Engine.Alongside
import Workflow.Proofs.Engine.Admission
import Workflow.Proofs.Engine.StartOnce
import Workflow.Proofs.Pool.Twin
import Workflow.Proofs.Board.Aside
import Workflow.Proofs.Engine.Twin
import Workflow.Proofs.Engine.Observers
import Workflow.Proofs.Value.Distinct
import Workflow.Proofs.Json.Number
import Workflow.Proofs.Json.RoundTrip
import Workflow.Proofs.Pool.Alone
import Workflow.Proofs.Document.Distinct
import Workflow.Proofs.Call.KeepsDistinct
import Workflow.Proofs.Handler.Local
import Workflow.Proofs.Engine.Isolated
import Workflow.Proofs.CommandLine.Spelling
import Workflow.Proofs.CommandLine.Run
import Workflow.Proofs.Guard.Outcome
import Workflow.Proofs.Context.Lookup
import Workflow.Proofs.Call.Choice
import Workflow.Proofs.Engine.Idle
import Workflow.Proofs.Guard.Sizes
import Workflow.Proofs.Call.Payload
import Workflow.Proofs.Board.Ledger
import Workflow.Proofs.Board.Follows
import Workflow.Proofs.Board.Turns
import Workflow.Proofs.Board.Round
import Workflow.Proofs.Guard.Boolean
import Workflow.Proofs.Guard.Reads
import Workflow.Proofs.Value.Comparison
import Workflow.Proofs.Guard.Munch
import Workflow.Proofs.Guard.Literal
import Workflow.Proofs.Guard.Height
import Workflow.Proofs.Cart.Entries
import Workflow.Proofs.Cart.Grouping
import Workflow.Proofs.Cart.Unnamed
import Workflow.Proofs.Handler.Required
import Workflow.Proofs.Document.Fallback
import Workflow.Proofs.Json.OneLine
import Workflow.Proofs.Registry.History
import Workflow.Proofs.CommandLine.Exit
import Workflow.Proofs.Log.Line
