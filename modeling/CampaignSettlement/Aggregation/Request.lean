import CampaignSettlement.Aggregation.Run
import CampaignSettlement.Number.Overflow

/-!
Requests for aggregation and for ranges of daily totals.
-/
namespace CampaignSettlement.Aggregation

open Calendar (Date Instant)
open Json (Reader RecordForm Member)
open Ledger (Window WindowFault)
open Number (Overflow)

structure Request where
  date : Option Date
  start : Option Instant
  stop : Option Instant
  campaign : Option Int
deriving DecidableEq, Repr

inductive RequestFault
  | noSingleForm
  | window (f : WindowFault)
deriving DecidableEq, Repr

def RequestFault.message : RequestFault → String
  | noSingleForm => "provide either date, or start and end"
  | window f => f.message

namespace Request

def window (r : Request) : Except RequestFault Window :=
  match r.date, r.start, r.stop with
  | some d, none, none => (Window.ofDate d).mapError .window
  | none, some a, some b => (Window.between a b).mapError .window
  | _, _, _ => .error .noSingleForm

structure Draft where
  date : Option (Option Date) := none
  start : Option (Option Instant) := none
  stop : Option (Option Instant) := none
  campaign : Option (Option Int) := none

def form : RecordForm Request where
  Draft := Draft
  name := "AggregationRequest"
  members := [
    .place "date" Draft.date (fun d a => { d with date := some a }) (.option .date),
    .place "start" Draft.start (fun d a => { d with start := some a }) (.option .instant),
    .place "end" Draft.stop (fun d a => { d with stop := some a }) (.option .instant),
    .place "campaignId" Draft.campaign (fun d a => { d with campaign := some a }) (.option .int64)]
  empty := {}
  finish := fun d => .ok ⟨d.date.getD none, d.start.getD none, d.stop.getD none, d.campaign.getD none⟩

def reader : Reader Request := form.reader

end Request

structure DateRange where
  first : Date
  last : Date
deriving DecidableEq, Repr

inductive RangeFault
  | inverted
  | overflow (o : Overflow)
deriving DecidableEq, Repr

/-- A range without an end ends today; the six days before its end are worked out even when a start is
given. -/
def DateRange.resolve (start stop : Option Date) (today : Date) : Except RangeFault DateRange :=
  let last := stop.getD today
  match last.add? (-6) with
  | none => .error (.overflow .earlierDate)
  | some default =>
    let first := start.getD default
    if last < first then .error .inverted else .ok ⟨first, last⟩

end CampaignSettlement.Aggregation
