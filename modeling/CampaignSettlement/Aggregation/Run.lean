import CampaignSettlement.Json.Time
import CampaignSettlement.Text.Blank
import CampaignSettlement.Ledger.Fault
import CampaignSettlement.Ledger.Window

/-!
Runs of the daily aggregation: how a run works, what started it, how it ended, and the record that is
kept of it. The history keeps the newest runs.
-/
namespace CampaignSettlement.Aggregation

open Calendar (Date Instant)
open Json (Value Reader)
open Ledger (Window WindowFault)

inductive Mode
  | setBased
  | perCampaign
deriving DecidableEq, Repr

namespace Mode

def name : Mode → String
  | setBased => "set-based"
  | perCampaign => "per-campaign"

def reader : Reader Mode := .variant [("set-based", setBased), ("per-campaign", perCampaign)]

/-- A setting may be shorter than the name, in any case and with blanks around it. -/
def ofSetting (s : String) : Except String Mode :=
  let word := Text.lower (Text.trim s)
  if word = "set" || word = "set-based" then .ok setBased
  else if word = "per-campaign" || word = "campaign" then .ok perCampaign
  else .error ("unknown aggregation mode " ++ word)

end Mode

inductive Trigger
  | scheduled
  | onDemand
deriving DecidableEq, Repr

namespace Trigger

def name : Trigger → String
  | scheduled => "SCHEDULED"
  | onDemand => "ON_DEMAND"

def named : List (String × Trigger) := [("SCHEDULED", scheduled), ("ON_DEMAND", onDemand)]

def reader : Reader Trigger := .variant named

def ofName? (s : String) : Option Trigger := named.lookup s

end Trigger

inductive Outcome
  | completed
  | partly
  | failed
deriving DecidableEq, Repr

namespace Outcome

def name : Outcome → String
  | completed => "COMPLETED"
  | partly => "PARTIAL"
  | failed => "FAILED"

def named : List (String × Outcome) := [("COMPLETED", completed), ("PARTIAL", partly), ("FAILED", failed)]

def ofName? (s : String) : Option Outcome := named.lookup s

def label : Outcome → String
  | completed => "completed"
  | partly => "partial"
  | failed => "failed"

end Outcome

inductive Fault
  | window (f : WindowFault)
  | future (start : Date)
  | tooOld (start : Date) (maxPastDays : Int)
  | store (f : Ledger.Fault)
deriving DecidableEq, Repr

namespace Fault

def message : Fault → String
  | window f => f.message
  | future d => "window starts on " ++ d.text ++ ", which is in the future"
  | tooOld d n => "window starts on " ++ d.text ++ ", more than " ++ toString n ++ " days ago"
  | store f => "aggregation failed: " ++ f.message

def isInvalidRequest : Fault → Bool
  | store _ => false
  | _ => true

end Fault

structure Report where
  window : Window
  campaign : Option Int
  mode : Mode
  trigger : Trigger
  rows : Nat
  attempted : Nat
  failed : List Int
deriving DecidableEq

namespace Report

def isPartial (r : Report) : Bool := !r.failed.isEmpty

def json (r : Report) : Value :=
  .obj [("statsDate", .date r.window.date), ("window", r.window.json), ("campaignId", .option .int r.campaign),
    ("mode", .str r.mode.name), ("trigger", .str r.trigger.name), ("rowsUpdated", .nat r.rows),
    ("campaignsAttempted", .nat r.attempted), ("failedCampaigns", .list .int r.failed), ("durationMs", .int 0)]

end Report

structure RunRecord where
  startedAt : Instant
  date : Date
  campaign : Option Int
  mode : Mode
  trigger : Trigger
  outcome : Outcome
  rows : Nat
  failed : List Int
  error : Option String
deriving DecidableEq, Repr

def RunRecord.json (r : RunRecord) : Value :=
  .obj [("startedAt", .instant r.startedAt), ("statsDate", .date r.date), ("campaignId", .option .int r.campaign),
    ("mode", .str r.mode.name), ("trigger", .str r.trigger.name), ("outcome", .str r.outcome.name),
    ("rowsUpdated", .nat r.rows), ("failedCampaigns", .list .int r.failed), ("error", .option .str r.error),
    ("durationMs", .int 0)]

structure History where
  capacity : Nat
  runs : List RunRecord
deriving Repr

namespace History

def ofCapacity (n : Nat) : History := ⟨max n 1, []⟩

def push (h : History) (r : RunRecord) : History := { h with runs := (r :: h.runs).take h.capacity }

def recent (h : History) (limit : Nat) : List RunRecord := h.runs.take limit

def length (h : History) : Nat := h.runs.length

theorem recent_push (h : History) (r : RunRecord) (limit : Nat) (room : 0 < h.capacity) :
    (h.push r).recent (limit + 1) = r :: (h.recent (min limit (h.capacity - 1))) := by
  obtain ⟨k, hk⟩ : ∃ k, h.capacity = k + 1 := ⟨h.capacity - 1, by omega⟩
  simp [push, recent, hk, List.take_take]

end History

end CampaignSettlement.Aggregation
