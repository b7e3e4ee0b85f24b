import CampaignSettlement.Proofs.Aggregation.Days
import CampaignSettlement.Proofs.Metrics.Counts

/-!
A job over all that it is asked to do. What its validation refuses leaves no trace. Each run has one record, which tells
what the caller was answered; the history keeps the newest records, and the counters count all of them.
-/
namespace CampaignSettlement.Aggregation

open Calendar (Date Instant)
open Ledger (Totals Window)

/-- A day more than the permitted days back. A limit that is not in the calendar does not bind. -/
def Bygone (maxPastDays : Int) (start today : Date) : Prop :=
  ∃ oldest, 0 ≤ maxPastDays ∧ today.add? (-maxPastDays) = some oldest ∧ start < oldest

/-- A window on demand starts on a day that is neither to come nor bygone. -/
structure InReach (maxPastDays : Int) (start today : Date) : Prop where
  begun : start ≤ today
  recent : ¬Bygone maxPastDays start today

theorem reach_cases (maxPastDays : Int) (start today : Date) :
    today < start ∨ (start ≤ today ∧ Bygone maxPastDays start today) ∨ InReach maxPastDays start today := by
  by_cases future : today < start
  · exact .inl future
  · have begun : start ≤ today := Int.not_lt.mp future
    by_cases bygone : Bygone maxPastDays start today
    · exact .inr (.inl ⟨begun, bygone⟩)
    · exact .inr (.inr ⟨begun, bygone⟩)

namespace Job

variable {j : Job} {w : Window} {today : Date}

theorem validate_future (future : today < w.date) : j.validate w today = .error (.future w.date) := by
  simp only [validate, if_pos future]

theorem validate_bygone (begun : w.date ≤ today) (bygone : Bygone j.maxPastDays w.date today) :
    j.validate w today = .error (.tooOld w.date j.maxPastDays) := by
  obtain ⟨oldest, bound, limit, old⟩ := bygone
  have not_future : ¬today < w.date := fun future => absurd begun (Int.not_le.mpr future)
  simp only [validate, if_neg not_future, if_pos bound, limit, Option.any_some, decide_eq_true old, if_true]

theorem validate_reached (reach : InReach j.maxPastDays w.date today) : j.validate w today = .ok () := by
  have not_future : ¬today < w.date := fun future => absurd reach.begun (Int.not_le.mpr future)
  simp only [validate, if_neg not_future]
  by_cases bound : 0 ≤ j.maxPastDays
  · cases limit : today.add? (-j.maxPastDays) with
    | none => simp [bound]
    | some oldest =>
      have not_old : ¬w.date < oldest := fun old => reach.recent ⟨oldest, bound, limit, old⟩
      simp [bound, not_old]
  · simp [bound]

theorem validate_refused (out : ¬InReach j.maxPastDays w.date today) :
    ∃ f, j.validate w today = .error f ∧ f.isInvalidRequest = true := by
  obtain future | ⟨begun, bygone⟩ | reach := reach_cases j.maxPastDays w.date today
  · exact ⟨_, validate_future future, rfl⟩
  · exact ⟨_, validate_bygone begun bygone, rfl⟩
  · exact absurd reach out

end Job

inductive Errand
  | window (campaign : Option Int) (w : Window) (trigger : Trigger)
  | day (d : Date)
  | demand (campaign : Option Int) (w : Window) (today : Date)

namespace Errand

def Passes (maxPastDays : Int) : Errand → Prop
  | window .. => True
  | day d => d < Date.greatest
  | demand _ w today => InReach maxPastDays w.date today

def campaign : Errand → Option Int
  | window campaign .. => campaign
  | day _ => none
  | demand campaign .. => campaign

def date : Errand → Date
  | window _ w _ => w.date
  | day d => d
  | demand _ w _ => w.date

def trigger : Errand → Trigger
  | window _ _ trigger => trigger
  | day _ => .scheduled
  | demand .. => .onDemand

end Errand

structure Visit where
  now : Instant
  errand : Errand

abbrev Answer := Except Fault Report

namespace Job

variable {σ : Type}

def perform (t : Totals σ) (j : Job) (s : σ) (v : Visit) : Job × σ × Answer :=
  match v.errand with
  | .window campaign w trigger => j.aggregate t v.now s campaign w trigger
  | .day d => j.runForDate t v.now s d
  | .demand campaign w today => j.runOnDemand t v.now s campaign w today

/-- One visit after another, with the answers. The store is any: it may fail and change of its own at each call. -/
def performAll (t : Totals σ) : List Visit → Job → σ → Job × σ × List Answer
  | [], j, s => (j, s, [])
  | v :: later, j, s =>
    let (j, s, answer) := j.perform t s v
    let (j, s, answers) := performAll t later j s
    (j, s, answer :: answers)

end Job

/-- What a record says of how a run went, next to what the caller was told. -/
def Matches (r : RunRecord) : Answer → Prop
  | .ok report =>
    r.outcome = (if report.failed = [] then .completed else .partly) ∧ r.rows = report.rows ∧
      r.failed = report.failed ∧ r.error = none
  | .error (.store f) => r.outcome = .failed ∧ r.rows = 0 ∧ r.failed = [] ∧ r.error = some f.message
  | .error _ => False

structure Recounts (mode : Mode) (v : Visit) (answer : Answer) (r : RunRecord) : Prop where
  startedAt : r.startedAt = v.now
  date : r.date = v.errand.date
  campaign : r.campaign = v.errand.campaign
  mode : r.mode = mode
  trigger : r.trigger = v.errand.trigger
  told : Matches r answer

/-- Every visit that passes validation has its record, and no other has one. -/
inductive Chronicled (mode : Mode) (maxPastDays : Int) : List (Visit × Answer) → List RunRecord → Prop
  | nil : Chronicled mode maxPastDays [] []
  | run {v : Visit} {answer : Answer} {r : RunRecord} {visits : List (Visit × Answer)} {records : List RunRecord}
      (passes : v.errand.Passes maxPastDays) (recounts : Recounts mode v answer r)
      (rest : Chronicled mode maxPastDays visits records) : Chronicled mode maxPastDays ((v, answer) :: visits) (r :: records)
  | refused {v : Visit} {f : Fault} {visits : List (Visit × Answer)} {records : List RunRecord}
      (fails : ¬v.errand.Passes maxPastDays) (invalid : f.isInvalidRequest = true)
      (rest : Chronicled mode maxPastDays visits records) : Chronicled mode maxPastDays ((v, .error f) :: visits) records

inductive Goes (j : Job) (v : Visit) : Job → Answer → Prop
  | run {answer : Answer} {r : RunRecord} (passes : v.errand.Passes j.maxPastDays) (recounts : Recounts j.mode v answer r) :
      Goes j v (j.keep r) answer
  | refused {f : Fault} (fails : ¬v.errand.Passes j.maxPastDays) (invalid : f.isInvalidRequest = true) :
      Goes j v j (.error f)

namespace Job

variable {σ : Type}

theorem aggregate_run (t : Totals σ) (now : Instant) (j : Job) (s : σ) (only : Option Int) (w : Window) (trigger : Trigger) :
    j.aggregate t now s only w trigger =
      let ran := runIn j.mode t s only w
      (j.keep (j.recordOf now only w trigger ran.2), ran.1, reportOf j.mode only w trigger ran.2) :=
  aggregate_mode j.mode t now j s only w trigger

theorem goes_aggregate {t : Totals σ} {j : Job} {s : σ} {v : Visit} {w : Window} (passes : v.errand.Passes j.maxPastDays)
    (date : w.date = v.errand.date)
    (runs : j.perform t s v = j.aggregate t v.now s v.errand.campaign w v.errand.trigger) :
    Goes j v (j.perform t s v).1 (j.perform t s v).2.2 := by
  rw [runs, aggregate_run]
  dsimp only
  generalize (runIn j.mode t s v.errand.campaign w).2 = result
  refine .run passes ?_
  cases result with
  | error f => exact ⟨rfl, date, rfl, rfl, rfl, rfl, rfl, rfl, rfl⟩
  | ok r =>
    refine ⟨rfl, date, rfl, rfl, rfl, ?_, rfl, rfl, rfl⟩
    simp [recordOf]

theorem goes_perform (t : Totals σ) (j : Job) (s : σ) (v : Visit) :
    Goes j v (j.perform t s v).1 (j.perform t s v).2.2 := by
  obtain ⟨now, errand⟩ := v
  cases errand with
  | window campaign w trigger => exact goes_aggregate (w := w) trivial rfl rfl
  | day d =>
    cases day : Window.ofDate d with
    | ok w =>
      refine goes_aggregate (w := w) (Window.ofDate_early day) (Window.ofDate_date day) ?_
      simp only [perform, runForDate, day]
      rfl
    | error f =>
      have late : ¬d < Date.greatest := by
        intro early
        obtain ⟨w, whole⟩ := Window.ofDate_some early
        rw [day] at whole
        cases whole
      have refused : j.perform t s ⟨now, .day d⟩ = (j, s, .error (.window f)) := by
        simp only [perform, runForDate, day]
      rw [refused]
      exact .refused late rfl
  | demand campaign w today =>
    by_cases reach : InReach j.maxPastDays w.date today
    · refine goes_aggregate (w := w) reach rfl ?_
      simp only [perform, runOnDemand, validate_reached reach]
      rfl
    · obtain ⟨f, out, invalid⟩ := validate_refused reach
      have refused : j.perform t s ⟨now, .demand campaign w today⟩ = (j, s, .error f) := by
        simp only [perform, runOnDemand, out]
      rw [refused]
      exact .refused reach invalid

end Job

def rowsReported (answers : List Answer) : Nat := ((answers.filterMap Except.toOption).map Report.rows).sum

/-- What a job shows of the runs that it has made, and of its answers. -/
structure Accounts (capacity : Nat) (records : List RunRecord) (answers : List Answer) (j : Job) : Prop where
  room : j.history.capacity = capacity
  kept : j.history.runs = records.reverse.take capacity
  runs : ∀ o : Outcome, j.metrics.runs.of [o.label] = .ofNat (records.countP (·.outcome = o))
  others : ∀ labels, (∀ o : Outcome, labels ≠ [o.label]) → j.metrics.runs.of labels = 0
  rows : j.metrics.rows = .ofNat (rowsReported answers)

variable {capacity : Nat} {records : List RunRecord} {answers : List Answer} {j : Job}

theorem take_push {α : Type} (x : α) (xs : List α) (n : Nat) : (x :: xs.take n).take n = (x :: xs).take n := by
  cases n with
  | zero => rfl
  | succ n => rw [List.take_succ_cons, List.take_succ_cons, List.take_take, Nat.min_eq_left (Nat.le_succ n)]

theorem label_injective {o o' : Outcome} (same : [o.label] = [o'.label]) : o = o' := by
  cases o <;> cases o' <;> first | rfl | exact absurd same (by decide)

theorem rowsReported_snoc (answers : List Answer) (answer : Answer) :
    rowsReported (answers ++ [answer]) = rowsReported answers + (answer.toOption.elim 0 Report.rows) := by
  rw [rowsReported, List.filterMap_append, List.map_append, List.sum_append]
  cases answer <;> rfl

theorem matches_rows {r : RunRecord} {answer : Answer} (told : Matches r answer) :
    r.rows = answer.toOption.elim 0 Report.rows := by
  cases answer with
  | ok report => exact told.2.1
  | error f =>
    cases f with
    | store f => exact told.2.1
    | _ => exact told.elim

theorem accounts_goes (h : Accounts capacity records answers j) {v : Visit} {j' : Job} {answer : Answer}
    (goes : Goes j v j' answer) :
    ∃ fresh, Chronicled j.mode j.maxPastDays [(v, answer)] fresh ∧
      Accounts capacity (records ++ fresh) (answers ++ [answer]) j' := by
  cases goes with
  | @run _ r passes recounts =>
    refine ⟨[r], .run passes recounts .nil, ?_⟩
    constructor
    · exact h.room
    · change (r :: j.history.runs).take j.history.capacity = _
      rw [h.kept, h.room, take_push, List.reverse_append, List.reverse_singleton, List.singleton_append]
    · intro o
      change (j.metrics.runs.add [r.outcome.label] 1).of [o.label] = _
      rw [Metrics.Counts.of_add, h.runs, List.countP_append, List.countP_singleton]
      by_cases same : r.outcome = o
      · rw [if_pos (by rw [same]), if_pos (by simp [same]), UInt64.ofNat_add]
        rfl
      · rw [if_neg (fun labels => same (label_injective labels).symm), if_neg (by simp [same]), Nat.add_zero]
    · intro labels apart
      change (j.metrics.runs.add [r.outcome.label] 1).of labels = 0
      rw [Metrics.Counts.of_add, if_neg (apart r.outcome), h.others labels apart]
    · change j.metrics.rows + .ofNat r.rows = _
      rw [h.rows, rowsReported_snoc, ← matches_rows recounts.told, UInt64.ofNat_add]
  | @refused f fails invalid =>
    refine ⟨[], .refused fails invalid .nil, ?_⟩
    rw [List.append_nil]
    refine ⟨h.room, h.kept, h.runs, h.others, ?_⟩
    rw [h.rows, rowsReported_snoc]
    rfl

theorem chronicled_append {mode : Mode} {maxPastDays : Int} {before after : List (Visit × Answer)}
    {early late : List RunRecord} (h : Chronicled mode maxPastDays before early)
    (h' : Chronicled mode maxPastDays after late) : Chronicled mode maxPastDays (before ++ after) (early ++ late) := by
  induction h with
  | nil => exact h'
  | run passes recounts rest ih => exact .run passes recounts ih
  | refused fails invalid rest ih => exact .refused fails invalid ih

theorem goes_settings {v : Visit} {j' : Job} {answer : Answer} (goes : Goes j v j' answer) :
    j'.mode = j.mode ∧ j'.maxPastDays = j.maxPastDays := by
  cases goes <;> exact ⟨rfl, rfl⟩

theorem accounts_perform {σ : Type} (t : Totals σ) (visits : List Visit) (h : Accounts capacity records answers j) (s : σ) :
    ∃ fresh, Chronicled j.mode j.maxPastDays (visits.zip (j.performAll t visits s).2.2) fresh ∧
      (j.performAll t visits s).2.2.length = visits.length ∧
      Accounts capacity (records ++ fresh) (answers ++ (j.performAll t visits s).2.2) (j.performAll t visits s).1 := by
  induction visits generalizing j s records answers with
  | nil =>
    refine ⟨[], .nil, rfl, ?_⟩
    change Accounts capacity (records ++ []) (answers ++ []) j
    rw [List.append_nil, List.append_nil]
    exact h
  | cons v later ih =>
    have goes := Job.goes_perform t j s v
    obtain ⟨mode, maxPastDays⟩ := goes_settings goes
    obtain ⟨first, chronicled, accounts⟩ := accounts_goes h goes
    obtain ⟨rest, chronicled', length, accounts'⟩ := ih accounts (j.perform t s v).2.1
    rw [mode, maxPastDays] at chronicled'
    refine ⟨first ++ rest, chronicled_append chronicled chronicled', congrArg (· + 1) length, ?_⟩
    rw [List.append_assoc, List.append_assoc] at accounts'
    exact accounts'

/-- The records of all runs against the history and the counters. -/
structure Reconciled (capacity : Nat) (records : List RunRecord) (answers : List Answer) (j : Job) : Prop where
  recent : ∀ k, j.history.recent k = records.reverse.take (min k capacity) ∧
    (j.history.recent k).length = min k (min capacity records.length)
  bounded : j.history.length ≤ capacity
  runs : ∀ o : Outcome, j.metrics.runs.of [o.label] = .ofNat (records.countP (·.outcome = o))
  others : ∀ labels, (∀ o : Outcome, labels ≠ [o.label]) → j.metrics.runs.of labels = 0
  all : j.metrics.runs.of [Outcome.completed.label] + j.metrics.runs.of [Outcome.partly.label] +
    j.metrics.runs.of [Outcome.failed.label] = .ofNat records.length
  rows : j.metrics.rows = .ofNat (rowsReported answers)

theorem accounts_start (mode : Mode) (maxPastDays : Int) (historySize : Nat) :
    Accounts (max historySize 1) [] [] (Job.ofSettings mode maxPastDays historySize) :=
  ⟨rfl, List.take_nil.symm, fun _ => rfl, fun _ _ => rfl, rfl⟩

theorem outcomes_add (records : List RunRecord) :
    records.countP (·.outcome = .completed) + records.countP (·.outcome = .partly) +
      records.countP (·.outcome = .failed) = records.length := by
  induction records with
  | nil => rfl
  | cons r records ih =>
    simp only [List.countP_cons, List.length_cons]
    cases r.outcome <;> simp <;> omega

theorem Accounts.reconciled (h : Accounts capacity records answers j) : Reconciled capacity records answers j := by
  have recent (k : Nat) : j.history.recent k = records.reverse.take (min k capacity) := by
    rw [History.recent, h.kept, List.take_take]
  constructor
  · intro k
    refine ⟨recent k, ?_⟩
    rw [recent, List.length_take, List.length_reverse, Nat.min_assoc]
  · rw [History.length, h.kept]
    exact List.length_take_le _ _
  · exact h.runs
  · exact h.others
  · rw [h.runs, h.runs, h.runs, ← UInt64.ofNat_add, ← UInt64.ofNat_add, outcomes_add]
  · exact h.rows

/-- Whatever the store does. Counters are words of 64 bits. -/
theorem runs_accounted {σ : Type} (t : Totals σ) (mode : Mode) (maxPastDays : Int) (historySize : Nat)
    (visits : List Visit) (s : σ) :
    let (j, _, answers) := (Job.ofSettings mode maxPastDays historySize).performAll t visits s
    answers.length = visits.length ∧
      ∃ records, Chronicled mode maxPastDays (visits.zip answers) records ∧
        Reconciled (max historySize 1) records answers j := by
  obtain ⟨records, chronicled, length, accounts⟩ :=
    accounts_perform t visits (accounts_start mode maxPastDays historySize) s
  exact ⟨length, records, chronicled, accounts.reconciled⟩

end CampaignSettlement.Aggregation
