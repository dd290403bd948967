import BrowserHost.Binary64
import BrowserHost.Engine.Kind
import BrowserHost.Engine.Loop
import BrowserHost.Engine.Ticker
import BrowserHost.Event.Notice
import BrowserHost.Event.Timestamp
import BrowserHost.Event.Uuid
import BrowserHost.Fault
import BrowserHost.FrameCounter
import BrowserHost.Health.Family
import BrowserHost.Health.Mandatory
import BrowserHost.Health.Monitor
import BrowserHost.Health.ProcessInfo
import BrowserHost.Health.SharedMemory
import BrowserHost.Health.Tree
import BrowserHost.Health.Watch
import BrowserHost.Hub.Basic
import BrowserHost.Hub.Channel
import BrowserHost.Hub.Registry
import BrowserHost.Instance.Basic
import BrowserHost.Instance.Call
import BrowserHost.Instance.LoneLoop
import BrowserHost.Instance.Perform
import BrowserHost.Instance.Running
import BrowserHost.Instance.Schedule
import BrowserHost.Instance.Telling
import BrowserHost.Instance.Traffic
import BrowserHost.Json.Record
import BrowserHost.Json.Text
import BrowserHost.Json.Value
import BrowserHost.Lifecycle
import BrowserHost.Main
import BrowserHost.Program.Basic
import BrowserHost.Program.Configuration
import BrowserHost.Program.Endpoint
import BrowserHost.Settings.Basic
import BrowserHost.Settings.Document
import BrowserHost.Settings.Environment
import BrowserHost.Settings.Home
import BrowserHost.Shell.Command
import BrowserHost.Shell.Console
import BrowserHost.Shell.Session
import BrowserHost.Text.Blank
import BrowserHost.Text.Decimal
import BrowserHost.Text.Duration
import BrowserHost.Text.Lines
import BrowserHost.Text.Mebibytes
import BrowserHost.Text.Style
import BrowserHost.Toml.Document
import BrowserHost.Toml.Number
import BrowserHost.Toml.Table
import BrowserHost.Toml.Text
import BrowserHost.Toml.Value
import BrowserHost.Toml.Written
import BrowserHost.Proofs.Move
import BrowserHost.Proofs.Run
import BrowserHost.Proofs.Alike
import BrowserHost.Proofs.Chronicle
import BrowserHost.Proofs.Outline
import BrowserHost.Proofs.Order
import BrowserHost.Proofs.Confirmation
import BrowserHost.Proofs.Visibility
import BrowserHost.Proofs.Isolation
import BrowserHost.Proofs.Prompt
import BrowserHost.Proofs.Timing
import BrowserHost.Proofs.Descent
import BrowserHost.Proofs.Mask
import BrowserHost.Proofs.Verdict
import BrowserHost.Proofs.Desk
import BrowserHost.Proofs.Conduct
import BrowserHost.Proofs.Fanout
import BrowserHost.Proofs.Stream
import BrowserHost.Proofs.Beat
import BrowserHost.Proofs.Ledger
import BrowserHost.Proofs.Crossing
import BrowserHost.Proofs.Decision
import BrowserHost.Proofs.Hiding
import BrowserHost.Proofs.Enrolment
import BrowserHost.Proofs.Shuffle
import BrowserHost.Proofs.Occupancy
import BrowserHost.Proofs.Decimal
import BrowserHost.Proofs.Spelling
import BrowserHost.Proofs.Imprint
import BrowserHost.Proofs.RoundTrip
import BrowserHost.Proofs.Errand
import BrowserHost.Proofs.Address
import BrowserHost.Proofs.Navigation
import BrowserHost.Proofs.Sampling
import BrowserHost.Proofs.Script
import BrowserHost.Proofs.Quotation
import BrowserHost.Proofs.Rounding
import BrowserHost.Proofs.Shortest
import BrowserHost.Proofs.Figures
import BrowserHost.Proofs.Entries
import BrowserHost.Proofs.Keeping
import BrowserHost.Proofs.Gap
import BrowserHost.Proofs.Lockstep
import BrowserHost.Proofs.FalseStart
import BrowserHost.Proofs.Cadence
import BrowserHost.Proofs.Shortage
import BrowserHost.Proofs.Recollection
import BrowserHost.Proofs.Solitude
import BrowserHost.Proofs.Stillness
import BrowserHost.Proofs.Display
import BrowserHost.Proofs.Windows
import BrowserHost.Proofs.Narrowing
import BrowserHost.Proofs.Numeral
import BrowserHost.Proofs.Override
import BrowserHost.Proofs.Permission
import BrowserHost.Proofs.FirstRun
import BrowserHost.Proofs.Spacing
import BrowserHost.Proofs.Grammar
import BrowserHost.Proofs.Sharing
import BrowserHost.Proofs.Roster
import BrowserHost.Proofs.Repetition
import BrowserHost.Proofs.Omission
