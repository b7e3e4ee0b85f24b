import CampaignSettlement.Aggregation.Job
import CampaignSettlement.Aggregation.Request
import CampaignSettlement.Aggregation.Run
import CampaignSettlement.Aggregation.Schedule
import CampaignSettlement.Analysis.Inversions
import CampaignSettlement.Analysis.Order
import CampaignSettlement.Calendar.Date
import CampaignSettlement.Calendar.Instant
import CampaignSettlement.Calendar.Reading
import CampaignSettlement.Config.Consumer
import CampaignSettlement.Config.Environment
import CampaignSettlement.Config.Services
import CampaignSettlement.Http.Request
import CampaignSettlement.Http.Response
import CampaignSettlement.Http.Route
import CampaignSettlement.Json.Fault
import CampaignSettlement.Json.Reader
import CampaignSettlement.Json.Skip
import CampaignSettlement.Json.Time
import CampaignSettlement.Json.Token
import CampaignSettlement.Json.Value
import CampaignSettlement.Ledger.Arming
import CampaignSettlement.Ledger.Books
import CampaignSettlement.Ledger.Campaign
import CampaignSettlement.Ledger.DailyStat
import CampaignSettlement.Ledger.Fault
import CampaignSettlement.Ledger.Injection
import CampaignSettlement.Ledger.Memory
import CampaignSettlement.Ledger.Record
import CampaignSettlement.Ledger.Sql
import CampaignSettlement.Ledger.Status
import CampaignSettlement.Ledger.Store
import CampaignSettlement.Ledger.Table
import CampaignSettlement.Ledger.Window
import CampaignSettlement.Metrics.Exposition
import CampaignSettlement.Metrics.Registry
import CampaignSettlement.Metrics.Services
import CampaignSettlement.Number.Binary
import CampaignSettlement.Number.Literal
import CampaignSettlement.Number.Overflow
import CampaignSettlement.Number.Shortest
import CampaignSettlement.Proofs.Aggregation.Accounts
import CampaignSettlement.Proofs.Aggregation.Agreement
import CampaignSettlement.Proofs.Aggregation.Daily
import CampaignSettlement.Proofs.Aggregation.Days
import CampaignSettlement.Proofs.Aggregation.Modes
import CampaignSettlement.Proofs.Analysis.Arrangement
import CampaignSettlement.Proofs.Analysis.Diagnostics
import CampaignSettlement.Proofs.Analysis.Inversions
import CampaignSettlement.Proofs.Analysis.Partitions
import CampaignSettlement.Proofs.Analysis.Punctual
import CampaignSettlement.Proofs.Calendar.Days
import CampaignSettlement.Proofs.Calendar.RoundTrip
import CampaignSettlement.Proofs.Http.Labels
import CampaignSettlement.Proofs.Json.MendedNumbers
import CampaignSettlement.Proofs.Json.MendedRecords
import CampaignSettlement.Proofs.Json.MendedValues
import CampaignSettlement.Proofs.Json.Mending
import CampaignSettlement.Proofs.Json.Numerals
import CampaignSettlement.Proofs.Json.RoundTrip
import CampaignSettlement.Proofs.Json.Skipping
import CampaignSettlement.Proofs.Json.Texts
import CampaignSettlement.Proofs.Ledger.Calls
import CampaignSettlement.Proofs.Ledger.Calm
import CampaignSettlement.Proofs.Ledger.Histories
import CampaignSettlement.Proofs.Ledger.Overwriting
import CampaignSettlement.Proofs.Ledger.Queries
import CampaignSettlement.Proofs.Ledger.Rows
import CampaignSettlement.Proofs.Ledger.Statements
import CampaignSettlement.Proofs.Ledger.Stock
import CampaignSettlement.Proofs.Ledger.Table
import CampaignSettlement.Proofs.Ledger.Twins
import CampaignSettlement.Proofs.Lists
import CampaignSettlement.Proofs.Metrics.Counts
import CampaignSettlement.Proofs.Number.Rounding
import CampaignSettlement.Proofs.Program.Pairs
import CampaignSettlement.Proofs.Program.Watch
import CampaignSettlement.Proofs.Service.Admitting
import CampaignSettlement.Proofs.Service.Answering
import CampaignSettlement.Proofs.Service.OnDemand
import CampaignSettlement.Proofs.Settlement.Accord
import CampaignSettlement.Proofs.Settlement.Attempts
import CampaignSettlement.Proofs.Settlement.Beginning
import CampaignSettlement.Proofs.Settlement.Chronicle
import CampaignSettlement.Proofs.Settlement.Clearing
import CampaignSettlement.Proofs.Settlement.Committing
import CampaignSettlement.Proofs.Settlement.Conservation
import CampaignSettlement.Proofs.Settlement.Cutting
import CampaignSettlement.Proofs.Settlement.Delivery
import CampaignSettlement.Proofs.Settlement.Desk
import CampaignSettlement.Proofs.Settlement.Draining
import CampaignSettlement.Proofs.Settlement.Drawing
import CampaignSettlement.Proofs.Settlement.Enclosing
import CampaignSettlement.Proofs.Settlement.Failures
import CampaignSettlement.Proofs.Settlement.Filing
import CampaignSettlement.Proofs.Settlement.Flow
import CampaignSettlement.Proofs.Settlement.Heedless
import CampaignSettlement.Proofs.Settlement.Indexed
import CampaignSettlement.Proofs.Settlement.Keeping
import CampaignSettlement.Proofs.Settlement.Logging
import CampaignSettlement.Proofs.Settlement.Metering
import CampaignSettlement.Proofs.Settlement.Numbering
import CampaignSettlement.Proofs.Settlement.Offsets
import CampaignSettlement.Proofs.Settlement.Pairing
import CampaignSettlement.Proofs.Settlement.Passing
import CampaignSettlement.Proofs.Settlement.Ranking
import CampaignSettlement.Proofs.Settlement.Reading
import CampaignSettlement.Proofs.Settlement.Refusing
import CampaignSettlement.Proofs.Settlement.Replaying
import CampaignSettlement.Proofs.Settlement.Resuming
import CampaignSettlement.Proofs.Settlement.Retrying
import CampaignSettlement.Proofs.Settlement.Screening
import CampaignSettlement.Proofs.Settlement.Selling
import CampaignSettlement.Proofs.Settlement.Serving
import CampaignSettlement.Proofs.Settlement.Shutdown
import CampaignSettlement.Proofs.Settlement.Totals
import CampaignSettlement.Proofs.Settlement.Undoing
import CampaignSettlement.Proofs.Text.Digits
import CampaignSettlement.Proofs.Text.Mending
import CampaignSettlement.Proofs.Text.Utf8
import CampaignSettlement.Proofs.Wire.Replay
import CampaignSettlement.Proofs.Wire.RoundTrip
import CampaignSettlement.Service.Admission
import CampaignSettlement.Service.Analytics
import CampaignSettlement.Service.Consumer
import CampaignSettlement.Service.Deployment
import CampaignSettlement.Settlement.Backoff
import CampaignSettlement.Settlement.Batch
import CampaignSettlement.Settlement.Course
import CampaignSettlement.Settlement.Crew
import CampaignSettlement.Settlement.Indexed
import CampaignSettlement.Settlement.Intake
import CampaignSettlement.Settlement.Lane
import CampaignSettlement.Settlement.Letter
import CampaignSettlement.Settlement.Program
import CampaignSettlement.Settlement.Reason
import CampaignSettlement.Settlement.Sequence
import CampaignSettlement.Settlement.Station
import CampaignSettlement.Settlement.Worker
import CampaignSettlement.Text.Blank
import CampaignSettlement.Text.Percent
import CampaignSettlement.Text.Printable
import CampaignSettlement.Text.Quoted
import CampaignSettlement.Text.Utf8
import CampaignSettlement.Wire.Envelope
import CampaignSettlement.Wire.Message
import CampaignSettlement.Wire.Participation
import CampaignSettlement.Wire.Sink
