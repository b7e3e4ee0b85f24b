import CampaignSettlement.Aggregation.Job
import CampaignSettlement.Aggregation.Request
import CampaignSettlement.Analysis.Order
import CampaignSettlement.Http.Route
import CampaignSettlement.Ledger.Books

/-!
The analytics service: it answers questions about campaigns, their order of settlement and their daily
totals from the database, and starts aggregations on demand. Arithmetic that leaves its range ends a
request without a response.
-/
namespace CampaignSettlement.Service

open Aggregation (DateRange Job)
open Calendar (Date Instant)
open Http (ErrorWatch Piece Problem QueryMember Request Response Route)
open Json (Value)
open Ledger (Books Campaign DailyStat SqlLedger)
open Number (Overflow)

structure Analytics where
  job : Job
  sampleLimit : Nat
  watch : ErrorWatch := { service := "campaign-analytics" }

structure Desk where
  service : Analytics
  books : Books

namespace Analytics

inductive Endpoint
  | orderAnalysis
  | status
  | aggregate
  | history
  | daily
  | campaignTotals
  | raw
  | health
  | metrics
deriving DecidableEq, Repr

def routes : List (Route Endpoint) :=
  let campaign (last : String) : List Piece := [.literal "campaigns", .number, .literal last]
  [⟨campaign "order-analysis", .get, .orderAnalysis⟩,
    ⟨campaign "status", .get, .status⟩,
    ⟨[.literal "aggregations"], .post, .aggregate⟩,
    ⟨[.literal "aggregations", .literal "history"], .get, .history⟩,
    ⟨[.literal "stats", .literal "daily"], .get, .daily⟩,
    ⟨[.literal "stats", .literal "campaigns", .number], .get, .campaignTotals⟩,
    ⟨[.literal "stats", .literal "raw"], .get, .raw⟩,
    ⟨[.literal "healthz"], .get, .health⟩,
    ⟨[.literal "metrics"], .get, .metrics⟩]

def metricsText (a : Analytics) : String :=
  Metrics.exposition (Metrics.withHttpErrors a.job.metrics.families (some a.watch.counts))

def storeProblem (f : Ledger.Fault) : Problem := .internal f.message none

def requireCampaign (db : SqlLedger) (id : Int) : SqlLedger × Except Problem Campaign :=
  let (db, found) := db.fetchCampaign id
  (db, match found with
    | .error f => .error (storeProblem f)
    | .ok none => .error (.notFound "campaign_not_found")
    | .ok (some c) => .ok c)

def orderView (id : Int) (a : Analysis.OrderAnalysis) : Value :=
  .obj ([("campaignId", .int id)] ++ a.members ++ [("queryTimeMs", .int 0)])

def orderAnalysis (db : SqlLedger) (sampleLimit : Nat) (id : Int) :
    SqlLedger × Except Overflow (Except Problem Value) :=
  match requireCampaign db id with
  | (db, .error p) => (db, .ok (.error p))
  | (db, .ok _) =>
    let (db, records) := db.recordsOf id
    (db, match records with
      | .error f => .ok (.error (storeProblem f))
      | .ok rs => (Analysis.analyzeInRange rs sampleLimit).map fun a => .ok (orderView id a))

def statusView (c : Campaign) (n : Ledger.StatusCounts) : Except Overflow Value := do
  let usage ← c.usagePercent
  let total ← Number.add64 n.successes n.fails
  return .obj [("campaignId", .int c.id), ("name", .str c.name), ("status", .str c.status),
    ("totalStock", .int c.totalStock), ("currentStock", .int c.currentStock),
    ("successCount", .int n.successes), ("failCount", .int n.fails), ("totalParticipations", .int total),
    ("stockUsagePercent", .real usage)]

def campaignStatus (db : SqlLedger) (id : Int) : SqlLedger × Except Overflow (Except Problem Value) :=
  match requireCampaign db id with
  | (db, .error p) => (db, .ok (.error p))
  | (db, .ok c) =>
    let (db, counts) := db.statusCounts id
    (db, match counts with
      | .error f => .ok (.error (storeProblem f))
      | .ok n => (statusView { c with id } n).map .ok)

def viewAll : List DailyStat → Except Overflow (List Value)
  | [] => .ok []
  | s :: ss => do return (← s.view) :: (← viewAll ss)

def totalsView (rows : Except Ledger.Fault (List DailyStat)) : Except Overflow (Except Problem Value) :=
  match rows with
  | .error f => .ok (.error (storeProblem f))
  | .ok stats => (viewAll stats).map fun vs => .ok (.arr vs)

def refusalCode : Aggregation.Fault → String
  | .future _ => "future_date"
  | .tooOld .. => "date_too_old"
  | _ => "invalid_window"

def aggregationProblem (f : Aggregation.Fault) : Problem :=
  if f.isInvalidRequest then .badRequest (refusalCode f) f.message
  else ⟨.internal, "aggregation_failed", none, some f.message⟩

def aggregate (now : Instant) (d : Desk) (r : Aggregation.Request) : Desk × Except Problem Value :=
  match r.window with
  | .error f => (d, .error (.badRequest "invalid_window" f.message))
  | .ok w =>
    let (job, books, report) := d.service.job.runOnDemand Books.totals now d.books r.campaign w now.date
    (⟨{ d.service with job }, books⟩,
      match report with
      | .ok report => .ok report.json
      | .error f => .error (aggregationProblem f))

def queryInteger (r : Number.Range) (s : String) : Except String Int :=
  (Number.integer r s).mapError Number.IntegerFault.message

def queryDate (s : String) : Except String Date := (Date.read s).mapError Calendar.ReadingFault.message

def queryInstant (s : String) : Except String Instant := (Instant.read s).mapError Calendar.ReadingFault.message

structure RangeDraft where
  start : Option Date := none
  stop : Option Date := none

structure RawDraft where
  start : Option Instant := none
  stop : Option Instant := none
  limit : Option Int := none

def historyLimit (r : Request) : Except Response Nat :=
  Http.queryValue [.place "limit" id (fun _ n => some n) (queryInteger Number.nat64)]
    (none : Option Int) (fun d => .ok (min ((d.map Int.toNat).getD 20) 1000)) r

def dailyDate (r : Request) : Except Response Date :=
  Http.queryValue [.place "date" id (fun _ d => some d) queryDate] (none : Option Date)
    (Json.required "date") r

def rangeQuery (r : Request) : Except Response RangeDraft :=
  Http.queryValue
    [.place "start" RangeDraft.start (fun d a => { d with start := some a }) queryDate,
      .place "end" RangeDraft.stop (fun d a => { d with stop := some a }) queryDate]
    {} .ok r

structure RawQuery where
  start : Instant
  stop : Instant
  limit : Option Int

def rawQuery (r : Request) : Except Response RawQuery :=
  Http.queryValue
    [.place "start" RawDraft.start (fun d a => { d with start := some a }) queryInstant,
      .place "end" RawDraft.stop (fun d a => { d with stop := some a }) queryInstant,
      .place "limit" RawDraft.limit (fun d a => { d with limit := some a }) (queryInteger Number.int64)]
    {} (fun d => do return ⟨← Json.required "start" d.start, ← Json.required "end" d.stop, d.limit⟩) r

def rawLimit (limit : Option Int) : Nat := (min (max (limit.getD 100) 1) 1000).toNat

def rawRecords (db : SqlLedger) (q : RawQuery) : SqlLedger × Except Problem Value :=
  if q.start < q.stop then
    let (db, rows) := db.recordsBetween q.start q.stop (rawLimit q.limit)
    (db, match rows with
      | .error f => .error (storeProblem f)
      | .ok rs => .ok (.list Ledger.Record.json rs))
  else (db, .error (.badRequest "invalid_range" "start must be before end"))

def rangeProblem : Problem := .badRequest "invalid_range" "start must not be after end"

def campaignTotals (db : SqlLedger) (today : Date) (id : Int) (d : RangeDraft) :
    SqlLedger × Except Overflow (Except Problem Value) :=
  match DateRange.resolve d.start d.stop today with
  | .error (.overflow o) => (db, .error o)
  | .error .inverted => (db, .ok (.error rangeProblem))
  | .ok range =>
    let (db, rows) := db.statsOf id range.first range.last
    (db, totalsView rows)

def respond : Except Problem Value → Response
  | .ok v => .json 200 v
  | .error p => p.response

def answered (d : Desk) : SqlLedger × Except Problem Value → Desk × Except Overflow Response
  | (database, v) => ({ d with books := { d.books with database } }, .ok (respond v))

/-- Like `answered`, for what may leave the range of its arithmetic. -/
def answeredOr (d : Desk) :
    SqlLedger × Except Overflow (Except Problem Value) → Desk × Except Overflow Response
  | (database, v) => ({ d with books := { d.books with database } }, v.map respond)

def withValue {α : Type} (d : Desk) (v : Except Response α) (f : α → Desk × Except Overflow Response) :
    Desk × Except Overflow Response :=
  match v with
  | .error response => (d, .ok response)
  | .ok a => f a

def handle (now : Instant) (d : Desk) (r : Request) : Desk × Except Overflow Response :=
  let db := d.books.database
  withValue d (Route.resolve routes r) fun (endpoint, raw) =>
    match endpoint with
    | .health => (d, .ok (.plain 200 "ok"))
    | .metrics => (d, .ok (.plain 200 d.service.metricsText))
    | .orderAnalysis =>
      withValue d (Http.pathNumber raw) fun id => answeredOr d (orderAnalysis db d.service.sampleLimit id)
    | .status => withValue d (Http.pathNumber raw) fun id => answeredOr d (campaignStatus db id)
    | .aggregate =>
      withValue d (Http.bodyValue Aggregation.Request.reader r) fun request =>
        let (d, report) := aggregate now d request
        (d, .ok (respond report))
    | .history =>
      withValue d (historyLimit r) fun limit =>
        (d, .ok (.json 200 (.list Aggregation.RunRecord.json (d.service.job.history.recent limit))))
    | .daily =>
      withValue d (dailyDate r) fun date =>
        let (db, rows) := db.statsOn date
        answeredOr d (db, totalsView rows)
    | .campaignTotals =>
      withValue d (Http.pathNumber raw) fun id =>
        withValue d (rangeQuery r) fun range => answeredOr d (campaignTotals db now.date id range)
    | .raw => withValue d (rawQuery r) fun q => answered d (rawRecords db q)

def serve (now : Instant) (d : Desk) (r : Request) : Desk × Except Overflow Response :=
  match handle now d r with
  | (d, .error o) => (d, .error o)
  | (d, .ok response) =>
    let response := response.answering r
    ({ d with service := { d.service with watch := d.service.watch.observe response } }, .ok response)

end Analytics

end CampaignSettlement.Service
