import TagLedger.Action.Basic
import TagLedger.Action.Script
import TagLedger.Audit.Record
import TagLedger.Audit.Sha256
import TagLedger.Call.Payload
import TagLedger.Call.Slot
import TagLedger.Call.Source
import TagLedger.Catalog
import TagLedger.Cli.Report
import TagLedger.Cli.Trading
import TagLedger.Cli.Transcript
import TagLedger.Config.Basic
import TagLedger.Config.Reader
import TagLedger.Entry.Basic
import TagLedger.Entry.Codec
import TagLedger.Entry.Degraded
import TagLedger.Entry.Element
import TagLedger.Entry.Open
import TagLedger.Error
import TagLedger.Input.Handler
import TagLedger.Json.Basic
import TagLedger.Json.Decode
import TagLedger.Json.Fenced
import TagLedger.Json.Printer
import TagLedger.Json.Reader
import TagLedger.Json.Scalar
import TagLedger.Json.Scan
import TagLedger.Main
import TagLedger.Markup.Attribute
import TagLedger.Markup.Element
import TagLedger.Markup.Token
import TagLedger.Memory.Archive
import TagLedger.Memory.Retention
import TagLedger.Memory.Slice
import TagLedger.Memory.Snapshot
import TagLedger.Memory.Working
import TagLedger.Number.Binary64
import TagLedger.Number.Shortest
import TagLedger.Output.Handler
import TagLedger.Proofs.Action.Behaviour
import TagLedger.Proofs.Action.Leaves
import TagLedger.Proofs.Action.Moves
import TagLedger.Proofs.Action.Owners
import TagLedger.Proofs.Action.Returns
import TagLedger.Proofs.Action.Runs
import TagLedger.Proofs.Audit.Integrity
import TagLedger.Proofs.Call.Agreement
import TagLedger.Proofs.Call.Passes
import TagLedger.Proofs.Call.Replies
import TagLedger.Proofs.Call.Verdict
import TagLedger.Proofs.Entry.Alike
import TagLedger.Proofs.Entry.Handled
import TagLedger.Proofs.Entry.Open
import TagLedger.Proofs.Entry.Outcome
import TagLedger.Proofs.Entry.Written
import TagLedger.Proofs.Json.Children
import TagLedger.Proofs.Json.Dotted
import TagLedger.Proofs.Json.Fenced
import TagLedger.Proofs.Json.Members
import TagLedger.Proofs.Json.Same
import TagLedger.Proofs.Json.Substitute
import TagLedger.Proofs.Json.Tidy
import TagLedger.Proofs.Json.Write
import TagLedger.Proofs.Markup.Brackets
import TagLedger.Proofs.Markup.Chunking
import TagLedger.Proofs.Markup.Extension
import TagLedger.Proofs.Markup.Forest
import TagLedger.Proofs.Markup.Layers
import TagLedger.Proofs.Markup.Offsets
import TagLedger.Proofs.Markup.Outer
import TagLedger.Proofs.Markup.Padding
import TagLedger.Proofs.Markup.Partition
import TagLedger.Proofs.Markup.Recognition
import TagLedger.Proofs.Markup.Signs
import TagLedger.Proofs.Markup.Sources
import TagLedger.Proofs.Markup.Verbatim
import TagLedger.Proofs.Markup.Writing
import TagLedger.Proofs.Memory.Archive
import TagLedger.Proofs.Memory.Patch
import TagLedger.Proofs.Memory.Ranking
import TagLedger.Proofs.Memory.Recall
import TagLedger.Proofs.Memory.Retention
import TagLedger.Proofs.Memory.Snapshot
import TagLedger.Proofs.Output.Recovery
import TagLedger.Proofs.Run.Abort
import TagLedger.Proofs.Run.Accounts
import TagLedger.Proofs.Run.Admission
import TagLedger.Proofs.Run.AppendOnly
import TagLedger.Proofs.Run.Bare
import TagLedger.Proofs.Run.Beside
import TagLedger.Proofs.Run.CallAlone
import TagLedger.Proofs.Run.CausalOrder
import TagLedger.Proofs.Run.Conduct
import TagLedger.Proofs.Run.Contexts
import TagLedger.Proofs.Run.Course
import TagLedger.Proofs.Run.Deeds
import TagLedger.Proofs.Run.Deliveries
import TagLedger.Proofs.Run.Direct
import TagLedger.Proofs.Run.Dispatches
import TagLedger.Proofs.Run.Endings
import TagLedger.Proofs.Run.Episodes
import TagLedger.Proofs.Run.Executions
import TagLedger.Proofs.Run.Fate
import TagLedger.Proofs.Run.Frame
import TagLedger.Proofs.Run.Gate
import TagLedger.Proofs.Run.Growth
import TagLedger.Proofs.Run.Handling
import TagLedger.Proofs.Run.Held
import TagLedger.Proofs.Run.Host
import TagLedger.Proofs.Run.Inputs
import TagLedger.Proofs.Run.Intake
import TagLedger.Proofs.Run.Keeping
import TagLedger.Proofs.Run.Landing
import TagLedger.Proofs.Run.Log
import TagLedger.Proofs.Run.Mail
import TagLedger.Proofs.Run.Mirror
import TagLedger.Proofs.Run.Nearing
import TagLedger.Proofs.Run.Noted
import TagLedger.Proofs.Run.Once
import TagLedger.Proofs.Run.Opening
import TagLedger.Proofs.Run.Operations
import TagLedger.Proofs.Run.Outcomes
import TagLedger.Proofs.Run.Outputs
import TagLedger.Proofs.Run.Pairing
import TagLedger.Proofs.Run.Permits
import TagLedger.Proofs.Run.Persisted
import TagLedger.Proofs.Run.Places
import TagLedger.Proofs.Run.Posts
import TagLedger.Proofs.Run.Progress
import TagLedger.Proofs.Run.Queue
import TagLedger.Proofs.Run.Reference
import TagLedger.Proofs.Run.Replay
import TagLedger.Proofs.Run.Retries
import TagLedger.Proofs.Run.Roster
import TagLedger.Proofs.Run.Route
import TagLedger.Proofs.Run.SameLog
import TagLedger.Proofs.Run.Saves
import TagLedger.Proofs.Run.Schedule
import TagLedger.Proofs.Run.Senders
import TagLedger.Proofs.Run.Settle
import TagLedger.Proofs.Run.Settling
import TagLedger.Proofs.Run.Sightings
import TagLedger.Proofs.Run.Slices
import TagLedger.Proofs.Run.Slots
import TagLedger.Proofs.Run.Stages
import TagLedger.Proofs.Run.Stalls
import TagLedger.Proofs.Run.Task
import TagLedger.Proofs.Run.Trace
import TagLedger.Proofs.Run.Visibility
import TagLedger.Proofs.Run.Winding
import TagLedger.Proofs.Run.Writes
import TagLedger.Proofs.Runner.Account
import TagLedger.Proofs.Runner.Completion
import TagLedger.Proofs.Runner.Delay
import TagLedger.Proofs.Runner.Limit
import TagLedger.Proofs.Runner.Log
import TagLedger.Proofs.Runner.Moves
import TagLedger.Proofs.Runner.Schedule
import TagLedger.Proofs.Runner.Turn
import TagLedger.Proofs.Runner.Winding
import TagLedger.Proofs.Schema.Normal
import TagLedger.Proofs.Template.Detection
import TagLedger.Proofs.Template.Places
import TagLedger.Proofs.Template.Substitution
import TagLedger.Proofs.Text.Bytes
import TagLedger.Proofs.Text.Calendar
import TagLedger.Proofs.Text.Identifier
import TagLedger.Proofs.Text.Moment
import TagLedger.Proofs.Text.Pieces
import TagLedger.Run.Basic
import TagLedger.Run.Commit
import TagLedger.Run.Message
import TagLedger.Run.Move
import TagLedger.Run.Route
import TagLedger.Run.Session
import TagLedger.Run.Stream
import TagLedger.Run.Task
import TagLedger.Runner.Batch
import TagLedger.Runner.Fifo
import TagLedger.Runner.Job
import TagLedger.Schema.Basic
import TagLedger.Subscriber
import TagLedger.Template.Basic
import TagLedger.Template.Path
import TagLedger.Text.Alphanumeric
import TagLedger.Text.Basic
import TagLedger.Text.Blank
import TagLedger.Text.Lowercase
import TagLedger.Text.Pieces
import TagLedger.Text.Printable
import TagLedger.Timestamp
import TagLedger.Uuid
