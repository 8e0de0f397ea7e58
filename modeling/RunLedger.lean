import RunLedger.Allocation
import RunLedger.Announcement.Basic
import RunLedger.Announcement.Bus
import RunLedger.Announcement.Envelope
import RunLedger.Command.Arguments
import RunLedger.Command.Execution
import RunLedger.Config
import RunLedger.Decimal.Digits
import RunLedger.Decimal.Extended
import RunLedger.Decimal.Shortest
import RunLedger.Digest.Sha256
import RunLedger.Event.Basic
import RunLedger.Event.Uid
import RunLedger.Fault
import RunLedger.Http.Charset
import RunLedger.Http.Percent
import RunLedger.Http.Url
import RunLedger.Json.Document
import RunLedger.Json.Number
import RunLedger.Json.Printer
import RunLedger.Json.Record
import RunLedger.Json.Relaxed.Basic
import RunLedger.Json.Relaxed.Scanner
import RunLedger.Json.Scanner
import RunLedger.Json.Value
import RunLedger.Logs.Output
import RunLedger.Logs.Paging
import RunLedger.Logs.Request
import RunLedger.Logs.Stream
import RunLedger.Main
import RunLedger.Octets
import RunLedger.Orchestrator.Basic
import RunLedger.Run.Basic
import RunLedger.Run.Status
import RunLedger.Service.Error
import RunLedger.Service.Events
import RunLedger.Service.Ledger
import RunLedger.Service.Runs
import RunLedger.Store.Cell
import RunLedger.Store.Database
import RunLedger.Store.Direct
import RunLedger.Store.Error
import RunLedger.Store.EventRow
import RunLedger.Store.Events
import RunLedger.Store.Location
import RunLedger.Store.RunRow
import RunLedger.Store.Projection
import RunLedger.Store.Runs
import RunLedger.Store.Tables
import RunLedger.Text.Characters
import RunLedger.Text.Hex
import RunLedger.Text.Quoted
import RunLedger.Text.Utf8
import RunLedger.Time.Calendar
import RunLedger.Time.Instant
import RunLedger.Time.Rfc3339
import RunLedger.Toml.Document
import RunLedger.Toml.Scalar
import RunLedger.Toml.Tables
import RunLedger.Toml.Text
import RunLedger.Uuid
import RunLedger.Proofs.Logs.Taking
import RunLedger.Proofs.Logs.OneStream
import RunLedger.Proofs.Logs.Turns
import RunLedger.Proofs.Logs.SeveralStreams
import RunLedger.Proofs.Logs.SharedPages
import RunLedger.Proofs.Store.RunStatements
import RunLedger.Proofs.Service.Cancellation
import RunLedger.Proofs.Json.Numerals
import RunLedger.Proofs.Json.Printed
import RunLedger.Proofs.Json.Relaxed
import RunLedger.Proofs.Basic
import RunLedger.Proofs.Store.SavedEvents
import RunLedger.Proofs.Store.EventRows
import RunLedger.Proofs.Store.EventHistory
import RunLedger.Proofs.Json.Members
import RunLedger.Proofs.Store.Snapshots
import RunLedger.Proofs.Store.Projection
import RunLedger.Proofs.Json.Reread
import RunLedger.Proofs.Store.Outputs
import RunLedger.Proofs.Service.Delivery
import RunLedger.Proofs.Service.Batches
import RunLedger.Proofs.Service.Contention
import RunLedger.Proofs.Store.Redelivery
import RunLedger.Proofs.Store.Resumption
import RunLedger.Proofs.Event.Identity
import RunLedger.Proofs.Decimal.Rounding
import RunLedger.Proofs.Decimal.Shortest
import RunLedger.Proofs.Json.Finite
import RunLedger.Proofs.Json.ReadsBack
import RunLedger.Proofs.Json.Forms
import RunLedger.Proofs.Service.SavedOutputs
import RunLedger.Proofs.Store.RunRows
import RunLedger.Proofs.Store.RunMaps
import RunLedger.Proofs.Command.RepeatedCancels
import RunLedger.Proofs.Logs.Repeats
import RunLedger.Proofs.Service.EventSaves
import RunLedger.Proofs.Store.ListOrder
import RunLedger.Proofs.Logs.Selectors
import RunLedger.Proofs.Store.RowContents
import RunLedger.Proofs.Logs.Exchanges
import RunLedger.Proofs.Logs.FirstFailure
import RunLedger.Proofs.Service.FailedChanges
import RunLedger.Proofs.Event.TextForm
import RunLedger.Proofs.Http.Percent
import RunLedger.Proofs.Http.Path
import RunLedger.Proofs.Http.Url
import RunLedger.Proofs.Orchestrator.JobAddress
