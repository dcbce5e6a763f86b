import RecordService.Bytes
import RecordService.Calendar.Basic
import RecordService.Calendar.Text
import RecordService.Database.Content
import RecordService.Database.Reply
import RecordService.Database.Session
import RecordService.Database.Store
import RecordService.Decimal.Basic
import RecordService.Decimal.Shortest
import RecordService.Decimal.Text
import RecordService.Error
import RecordService.Feed
import RecordService.Http.Address
import RecordService.Http.Document
import RecordService.Http.Entities
import RecordService.Http.MediaType
import RecordService.Http.Message
import RecordService.Http.Multipart
import RecordService.Http.Options
import RecordService.Http.Service
import RecordService.Http.Target
import RecordService.Http.Upload
import RecordService.Json.Basic
import RecordService.Json.Raw
import RecordService.Kind
import RecordService.Proofs.Calendar.Text
import RecordService.Proofs.Database.Progress
import RecordService.Proofs.Database.Reading
import RecordService.Proofs.Database.Staging
import RecordService.Proofs.Decimal.Rounding
import RecordService.Proofs.Decimal.Shortest
import RecordService.Proofs.Decimal.Text
import RecordService.Proofs.Feed
import RecordService.Proofs.Http.Abandonment
import RecordService.Proofs.Http.Address
import RecordService.Proofs.Http.Counting
import RecordService.Proofs.Http.Delivery
import RecordService.Proofs.Http.Disposition
import RecordService.Proofs.Http.Document
import RecordService.Proofs.Http.Effect
import RecordService.Proofs.Http.Identity
import RecordService.Proofs.Http.Inlet
import RecordService.Proofs.Http.Options
import RecordService.Proofs.Http.Reach
import RecordService.Proofs.Http.Relay
import RecordService.Proofs.Http.Restore
import RecordService.Proofs.Http.Schedule
import RecordService.Proofs.Lists
import RecordService.Proofs.Outcome
import RecordService.Proofs.Query.Canonical
import RecordService.Proofs.Query.Fault
import RecordService.Proofs.Query.Grammar
import RecordService.Proofs.Query.Items
import RecordService.Proofs.Query.Literal
import RecordService.Proofs.Query.Order
import RecordService.Proofs.Query.Parser
import RecordService.Proofs.Query.Path
import RecordService.Proofs.Query.Position
import RecordService.Proofs.Query.Printing
import RecordService.Proofs.Query.Ranking
import RecordService.Proofs.Query.Respacing
import RecordService.Proofs.Query.Spacing
import RecordService.Proofs.Query.Tiling
import RecordService.Proofs.Query.Token
import RecordService.Proofs.Query.Typing
import RecordService.Proofs.Query.Unknown
import RecordService.Proofs.Reads
import RecordService.Proofs.Record.Acceptance
import RecordService.Proofs.Record.Canonical
import RecordService.Proofs.Record.Texts
import RecordService.Proofs.Schema.Image
import RecordService.Proofs.Schema.Namespace
import RecordService.Proofs.Schema.Registry
import RecordService.Proofs.Schema.Rules
import RecordService.Proofs.Sql.Assignment
import RecordService.Proofs.Sql.Filter
import RecordService.Proofs.Sql.Grammar
import RecordService.Proofs.Sql.Layout
import RecordService.Proofs.Sql.Lexer
import RecordService.Proofs.Sql.Listing
import RecordService.Proofs.Sql.Operation
import RecordService.Proofs.Sql.Ordering
import RecordService.Proofs.Sql.Placeholder
import RecordService.Proofs.Sql.Quoting
import RecordService.Proofs.Sql.Statement
import RecordService.Proofs.Sql.Writing
import RecordService.Proofs.Store.Access
import RecordService.Proofs.Store.Atomicity
import RecordService.Proofs.Store.Chunks
import RecordService.Proofs.Store.Commuting
import RecordService.Proofs.Store.Copying
import RecordService.Proofs.Store.History
import RecordService.Proofs.Store.Identity
import RecordService.Proofs.Store.Invariant
import RecordService.Proofs.Store.Listing
import RecordService.Proofs.Store.Lookup
import RecordService.Proofs.Store.Recording
import RecordService.Proofs.Store.Redundancy
import RecordService.Proofs.Store.Retrieval
import RecordService.Proofs.Store.Revision
import RecordService.Proofs.Store.Run
import RecordService.Proofs.Store.Saving
import RecordService.Proofs.Store.Transfer
import RecordService.Proofs.Store.WellFormed
import RecordService.Proofs.Text.Numeral
import RecordService.Proofs.Text.Slice
import RecordService.Proofs.Text.Utf8
import RecordService.Proofs.Text.Words
import RecordService.Query.Comparison
import RecordService.Query.Filter
import RecordService.Query.Order
import RecordService.Query.Parser
import RecordService.Query.Path
import RecordService.Query.Selection
import RecordService.Query.Token
import RecordService.Record.Basic
import RecordService.Record.Texts
import RecordService.Schema.Document
import RecordService.Schema.Error
import RecordService.Schema.Reader
import RecordService.Schema.Registry
import RecordService.Schema.Rules
import RecordService.Settings.Address
import RecordService.Settings.Basic
import RecordService.Sql.Condition
import RecordService.Sql.DataType
import RecordService.Sql.Piece
import RecordService.Sql.Statement
import RecordService.Sql.Wire
import RecordService.Store.Basic
import RecordService.Store.Content
import RecordService.Store.Memory
import RecordService.Store.Records
import RecordService.Text.Blank
import RecordService.Text.Control
import RecordService.Text.Cut
import RecordService.Text.Encoding
import RecordService.Text.Numeral
import RecordService.Value
