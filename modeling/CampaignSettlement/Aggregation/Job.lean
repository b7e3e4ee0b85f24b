import CampaignSettlement.Aggregation.Run
import CampaignSettlement.Ledger.Store
import CampaignSettlement.Metrics.Services

/-!
The aggregation job: it writes the daily totals of a window anew, so a window can be run at any time. In
one statement it succeeds or fails as a whole; campaign by campaign it goes on and names the campaigns
that failed. Every run that passes validation is counted and goes into the history.
-/
namespace CampaignSettlement.Aggregation

open Calendar (Date Instant)
open Ledger (Totals Window)

structure Job where
  mode : Mode
  maxPastDays : Int
  history : History
  metrics : Metrics.Aggregation := {}

namespace Job

def ofSettings (mode : Mode) (maxPastDays : Int) (historySize : Nat) : Job :=
  { mode, maxPastDays, history := .ofCapacity historySize }

/-- A window on demand starts neither after `today` nor more than the permitted days before it. A limit
that no date reaches, or a negative one, does not bind. -/
def validate (j : Job) (w : Window) (today : Date) : Except Fault Unit :=
  let start := w.date
  if today < start then .error (.future start)
  else
    let oldest := if 0 ≤ j.maxPastDays then today.add? (-j.maxPastDays) else none
    if oldest.any (start < ·) then .error (.tooOld start j.maxPastDays) else .ok ()

structure Tally where
  rows : Nat
  attempted : Nat
  failed : List Int
deriving DecidableEq, Repr

variable {σ : Type}

def runSetBased (t : Totals σ) (s : σ) (campaign : Option Int) (w : Window) : σ × Except Ledger.Fault Tally :=
  let (s, written) := t.write s w campaign
  (s, written.map fun n => ⟨n, n, []⟩)

def writeEach (t : Totals σ) (w : Window) : List Int → σ → σ × Nat × List Int
  | [], s => (s, 0, [])
  | id :: ids, s =>
    let (s, written) := t.write s w (some id)
    let (s, rows, failed) := writeEach t w ids s
    match written with
    | .ok n => (s, n + rows, failed)
    | .error _ => (s, rows, id :: failed)

def runPerCampaign (t : Totals σ) (s : σ) (campaign : Option Int) (w : Window) : σ × Except Ledger.Fault Tally :=
  let (s, found) : σ × Except Ledger.Fault (List Int) := match campaign with
    | some id => (s, .ok [id])
    | none => t.campaigns s w
  match found with
  | .error f => (s, .error f)
  | .ok ids =>
    let (s, rows, failed) := writeEach t w ids s
    (s, .ok ⟨rows, ids.length, failed⟩)

def keep (j : Job) (r : RunRecord) : Job :=
  { j with
    history := j.history.push r
    metrics :=
      { j.metrics with
        runs := j.metrics.runs.add [r.outcome.label] 1
        rows := j.metrics.rows + .ofNat r.rows
        runSeconds := j.metrics.runSeconds.observe (Number.double.ofNat 0) } }

def recordOf (j : Job) (now : Instant) (campaign : Option Int) (w : Window) (trigger : Trigger) :
    Except Ledger.Fault Tally → RunRecord
  | .ok t =>
    ⟨now, w.date, campaign, j.mode, trigger, if t.failed.isEmpty then .completed else .partly, t.rows,
      t.failed, none⟩
  | .error f => ⟨now, w.date, campaign, j.mode, trigger, .failed, 0, [], some f.message⟩

def aggregate (t : Totals σ) (now : Instant) (j : Job) (s : σ) (campaign : Option Int) (w : Window)
    (trigger : Trigger) : Job × σ × Except Fault Report :=
  let (s, result) := match j.mode with
    | .setBased => runSetBased t s campaign w
    | .perCampaign => runPerCampaign t s campaign w
  let report : Except Fault Report := match result with
    | .ok r => .ok ⟨w, campaign, j.mode, trigger, r.rows, r.attempted, r.failed⟩
    | .error f => .error (.store f)
  (j.keep (j.recordOf now campaign w trigger result), s, report)

def runOnDemand (t : Totals σ) (now : Instant) (j : Job) (s : σ) (campaign : Option Int) (w : Window)
    (today : Date) : Job × σ × Except Fault Report :=
  match j.validate w today with
  | .error f => (j, s, .error f)
  | .ok () => j.aggregate t now s campaign w .onDemand

def runForDate (t : Totals σ) (now : Instant) (j : Job) (s : σ) (d : Date) : Job × σ × Except Fault Report :=
  match Window.ofDate d with
  | .error f => (j, s, .error (.window f))
  | .ok w => j.aggregate t now s none w .scheduled

end Job

end CampaignSettlement.Aggregation
