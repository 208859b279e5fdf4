import Mediation.Calendar
import Mediation.Coin
import Mediation.CommandLine.Arguments
import Mediation.CommandLine.Commands
import Mediation.Config.Basic
import Mediation.Config.Json
import Mediation.Config.Yaml
import Mediation.Decimal
import Mediation.Double
import Mediation.Engine.Basic
import Mediation.Identity
import Mediation.Inspection
import Mediation.Journal.Basic
import Mediation.Journal.Record
import Mediation.Json.Basic
import Mediation.Json.Decode
import Mediation.Json.Document
import Mediation.Json.Format
import Mediation.Node.Basic
import Mediation.Node.Boot
import Mediation.Node.Json
import Mediation.Radix
import Mediation.Replay.Basic
import Mediation.Replay.Json
import Mediation.Storage.Disk
import Mediation.Storage.Route
import Mediation.Storage.Snapshots
import Mediation.Support.Basic
import Mediation.Support.DisputeStore
import Mediation.Support.Json
import Mediation.Support.Payout
import Mediation.Support.Texts
import Mediation.Support.Timers
import Mediation.Table
import Mediation.Text.Blank
import Mediation.Timestamp
import Mediation.Trade.Basic
import Mediation.Trade.Book
import Mediation.Trade.Json
import Mediation.Trade.State
import Mediation.Yaml.Block
import Mediation.Yaml.Cursor
import Mediation.Yaml.Node
import Mediation.Yaml.Plain
import Mediation.Yaml.Quoted
import Mediation.Yaml.Scalar
import Mediation.Yaml.Tag
import Mediation.Yaml.Token
import Mediation.Yaml.Value
import Mediation.Main
import Mediation.Proofs.Engine.Effects
import Mediation.Proofs.Engine.Case
import Mediation.Proofs.Engine.Tracks
import Mediation.Proofs.Engine.Attachment
import Mediation.Proofs.Engine.Redelivery
import Mediation.Proofs.Engine.Scope
import Mediation.Proofs.Engine.World
import Mediation.Proofs.Engine.Retries
import Mediation.Proofs.Engine.Acceptances
import Mediation.Proofs.Engine.Conservation
import Mediation.Proofs.Engine.Amounts
import Mediation.Proofs.Json.Text
import Mediation.Proofs.Json.Codec
import Mediation.Proofs.Timestamp
import Mediation.Proofs.Json.Formats
import Mediation.Proofs.Engine.Requests
import Mediation.Proofs.Storage.Disk
import Mediation.Proofs.Storage.Snapshots
import Mediation.Proofs.Storage.Journal
import Mediation.Proofs.Node.Durability
import Mediation.Proofs.Engine.Bookkeeping
import Mediation.Proofs.Replay.Direct
import Mediation.Proofs.Replay.Tasks
import Mediation.Proofs.Replay.Schedules
import Mediation.Proofs.Replay.Termination
import Mediation.Proofs.Replay.Agreement
import Mediation.Proofs.Engine.Verdicts
import Mediation.Proofs.Engine.Independence
import Mediation.Proofs.Engine.Reapplication
import Mediation.Proofs.Replay.Callers
import Mediation.Proofs.Replay.Log
import Mediation.Proofs.Replay.Texts
import Mediation.Proofs.Replay.Outcomes
import Mediation.Proofs.Engine.Operations
import Mediation.Proofs.Engine.Growth
import Mediation.Proofs.Engine.Transitions
import Mediation.Proofs.Engine.Contents
import Mediation.Proofs.Node.Recovery
import Mediation.Proofs.Engine.Refusals
import Mediation.Proofs.Engine.Acknowledgements
import Mediation.Proofs.Engine.Notifications
import Mediation.Proofs.Storage.Histories
import Mediation.Proofs.Node.Recording
import Mediation.Proofs.Node.Journaling
import Mediation.Proofs.Timers
import Mediation.Proofs.Engine.Sweep
import Mediation.Proofs.Node.Completion
import Mediation.Proofs.Engine.PayoutRequests
import Mediation.Proofs.Address
import Mediation.Proofs.Trade.Calls
import Mediation.Proofs.Trade.Closing
import Mediation.Proofs.Trade.Restoring
import Mediation.Proofs.Trade.PhaseNotices
import Mediation.Proofs.Decimal
import Mediation.Proofs.Coin
import Mediation.Proofs.Storage.Separation
import Mediation.Proofs.Yaml.Cursor
import Mediation.Proofs.Yaml.Plain
import Mediation.Proofs.Yaml.Quoted
import Mediation.Proofs.Yaml.Block
import Mediation.Proofs.Yaml.Scalar
import Mediation.Proofs.Yaml.Token
import Mediation.Proofs.Yaml.Document
import Mediation.Proofs.Config.Yaml
