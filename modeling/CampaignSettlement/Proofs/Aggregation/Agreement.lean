import CampaignSettlement.Proofs.Aggregation.Days
import CampaignSettlement.Proofs.Settlement.Committing

/-!
Settlement and aggregation agree. When all batches have come to their ends and the totals of every date on which a
record was created have been written, the daily rows of a campaign add up to what was reported of it and to what has
left its stock, whatever the schedule, the failures and the clock were.
-/
namespace CampaignSettlement.Aggregation

open Calendar (Date Instant)
open Ledger (Arming CallKind DailyStat Faulty Injection Launch MemoryLedger)
open Ledger.MemoryLedger
open Settlement (Backoff Beat Calls Committing Finished Stamped Station Turns processBatch reportedFor)
open Wire (Message)

def successesIn (l : MemoryLedger) (campaign : Int) : Int := ((rowsOf l campaign).map DailyStat.successes).sum

def failsIn (l : MemoryLedger) (campaign : Int) : Int := ((rowsOf l campaign).map DailyStat.fails).sum

/-- The daily rows of a campaign against its stock and the reports. -/
structure Agrees (l : MemoryLedger) (calls : Calls) (reports : List Settlement.Report) (x : Launch) : Prop where
  stock : ∃ c, l.campaign? x.id = some c ∧ successesIn l x.id = x.stock - c.currentStock
  successes : successesIn l x.id = reportedFor x.id .success calls reports
  fails : failsIn l x.id = reportedFor x.id .fail calls reports

variable {launches : List Launch} {calls : Calls} {t : Settlement.MemoryTurns} {reports : List Settlement.Report}

theorem rowsByDay_sums {rows : List DailyStat} {rs : List Ledger.Record} {campaign : Int}
    (h : RowsByDay rows rs campaign) :
    (rows.map DailyStat.successes).sum = successesOf (rs.filter (·.campaign == campaign)) ∧
      (rows.map DailyStat.fails).sum = failsOf (rs.filter (·.campaign == campaign)) :=
  ⟨rows_sum h fun _ => rfl, rows_sum h fun _ => rfl⟩

/-- Whatever the schedule, the failures and the batches are, as long as no clock is set to the last day that there is. -/
theorem rows_agree_with_settlement (distinct : (launches.map Launch.id).Nodup) (stocked : ∀ x ∈ launches, 0 ≤ x.stock)
    (calls : Calls) (s : Station (Faulty MemoryLedger)) (injections : List (Injection CallKind Ledger.Fault))
    (schedule : List (Beat (Station.Change Arming))) (early : s.now.date < Date.greatest)
    (sets : ∀ move ∈ schedule, move.Sets fun time => time.date < Date.greatest) (reports : List Settlement.Report)
    (runs : List DateRun) :
    let start := Turns.start (s.opening launches injections) (calls.map fun call => processBatch call.1 call.2)
    let stop := start.run (Station.answer Faulty.settleMemory) (Station.change Faulty.arm) schedule
    let drained := stop.state.store.inner
    Finished stop reports → Unhindered drained →
    (∀ r ∈ drained.records, r.createdAt.date ∈ runs.map DateRun.date) →
    (∀ x ∈ launches, Agrees (runDates drained runs) calls reports x) ∧
      ∀ campaign, reportedFor campaign .success calls reports = 0 → reportedFor campaign .fail calls reports = 0 →
        rowsOf (runDates drained runs) campaign = [] := by
  intro start stop drained finished unhindered covered
  have committing : Committing launches calls stop :=
    Settlement.committing_run (Settlement.committing_start distinct stocked calls s injections) schedule
  have stamped : Stamped (fun time => time.date < Date.greatest) stop.state :=
    Settlement.stamped_run (t := start) (Settlement.stamped_opening early launches injections) sets
  have rows (campaign : Int) : RowsByDay (rowsOf (runDates drained runs) campaign) drained.records campaign :=
    rowsByDay unhindered stamped.unsummed stamped.records covered campaign
  have reported := Settlement.finished_records committing finished
  constructor
  · intro x member
    obtain ⟨successes, fails⟩ := rowsByDay_sums (rows x.id)
    have sold : (drained.holdings.sold x.id : Int) = successesIn (runDates drained runs) x.id := successes.symm
    obtain ⟨c, conserved⟩ := Settlement.balanced_conserved (committing.selling.balanced x member)
    obtain ⟨all_sold, -⟩ := conserved.settled (Settlement.finished_closed committing finished)
    constructor
    · refine ⟨c, ?_, ?_⟩
      · rw [runDates_apart unhindered]
        exact conserved.found
      · rw [← sold]
        exact all_sold
    · exact successes.trans (congrArg Nat.cast (reported x.id .success))
    · exact fails.trans (congrArg Nat.cast (reported x.id .fail))
  · intro campaign no_success no_fail
    refine rows_none (rows campaign) (Settlement.committing_unrecorded committing ?_)
    intro r
    rw [reported campaign r]
    cases r with
    | success => exact no_success
    | fail => exact no_fail

def lastMoment : Instant := ⟨Job.today, Instant.greatest.time⟩

def overnight : List (Beat (Station.Change Arming)) :=
  .change (.store (.clock (some lastMoment))) :: List.replicate 10 (.turn 0) ++
    .change (.store (.clock none)) :: .change (.time (.startOf Job.tomorrow)) ::
      .change (.store (.mishaps { appends := .times 1 })) :: List.replicate 18 (.turn 1)

def bothDays : List DateRun :=
  [⟨.ofSettings .perCampaign 365 3, .startOf Job.tomorrow, Job.tomorrow⟩,
    ⟨.ofSettings .setBased 365 3, .startOf Job.tomorrow, Job.today⟩,
    ⟨.ofSettings .setBased 365 3, .startOf Job.tomorrow, Job.tomorrow⟩,
    ⟨.ofSettings .setBased 365 3, .startOf Job.tomorrow, .greatest⟩]

def shoppers : Calls := [(Settlement.twice, [Settlement.taking 0 0]), (Settlement.twice, [Settlement.taking 1 0])]

def shop : Settlement.MemoryTurns :=
  (Turns.start (Settlement.stand.opening [⟨1, 1, Settlement.epoch⟩] [])
    (shoppers.map fun call => processBatch call.1 call.2)).run
      (Station.answer Faulty.settleMemory) (Station.change Faulty.arm) overnight

theorem rows_agree_with_settlement_overnight :
    let drained := shop.state.store.inner
    let reports : List Settlement.Report := [⟨[.settled .success 1], 1⟩, ⟨[.settled .fail 2], 2⟩]
    Finished shop reports ∧ Unhindered drained ∧
      (∀ r ∈ drained.records, r.createdAt.date ∈ bothDays.map DateRun.date) ∧
      (runDates drained bothDays).stats.values = [⟨1, Job.today, 1, 0⟩, ⟨1, Job.tomorrow, 0, 1⟩] ∧
      ∀ x ∈ [(⟨1, 1, Settlement.epoch⟩ : Launch)], Agrees (runDates drained bothDays) shoppers reports x := by
  have finished : Finished shop [⟨[.settled .success 1], 1⟩, ⟨[.settled .fail 2], 2⟩] := by decide +kernel
  have unhindered : Unhindered shop.state.store.inner := ⟨by decide +kernel, by decide +kernel⟩
  have covered : ∀ r ∈ shop.state.store.inner.records, r.createdAt.date ∈ bothDays.map DateRun.date := by
    decide +kernel
  refine ⟨finished, unhindered, covered, by decide +kernel, ?_⟩
  exact (rows_agree_with_settlement (by decide) (by decide) shoppers Settlement.stand [] overnight (by decide)
    (by decide +kernel) _ bothDays finished unhindered covered).1

end CampaignSettlement.Aggregation
