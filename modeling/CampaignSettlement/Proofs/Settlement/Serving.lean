import CampaignSettlement.Proofs.Settlement.Ranking
import CampaignSettlement.Proofs.Settlement.Selling
import CampaignSettlement.Proofs.Settlement.Upkeep

/-!
First come, first served within a partition. When all messages for a campaign are dispatched to one
partition, its worker alone serves the campaign, batch after batch; so its records stand in the log in the
order in which their messages were dispatched, and the units of its stock go to the first of them.
-/
namespace CampaignSettlement.Settlement

open Ledger (Arming CallKind Entry Fault Faulty Injection Launch MemoryLedger Record)
open Wire (Message)

variable {b : Backoff} {size : Nat} {partition : Int}

def OnlyAt (campaign partition : Int) (sent : Int → List Message) : Prop :=
  ∀ y, ∀ m ∈ sent y, ∀ e, m.decode = .ok e → e.campaign = campaign → y = partition

def ExpectedAt (campaign partition y : Int) (m : Message) : Prop :=
  ∀ e, m.decode = .ok e → e.campaign = campaign → y = partition

def SameHoldings : Shift := fun s s' => s'.holdings = s.holdings

/-- The campaign is served by the worker of the partition. -/
def ServedAt (campaign stock partition : Int) : Knowledge := fun past now s =>
  Served campaign stock ((past partition).flatMap fun r => r.desk.committed) (now partition).desk s.holdings

theorem served_upkeep (b : Backoff) (campaign stock partition : Int) :
    Upkeep b (ExpectedAt campaign partition) SameHoldings (ServedAt campaign stock partition) where
  queues h pool signals := h
  begun := by
    intro past now s y batch h fresh expected
    rw [ServedAt]
    by_cases own : partition = y
    · subst own
      rw [Function.update_self]
      refine served_congr h ?_ ?_
      · rw [fresh]
        rfl
      · rw [fresh]
        rfl
    · rw [Function.update_of_ne own]
      exact h
  asked := by
    intro past now s y q next h accord expected course
    have act := accord.act (i := y) (round_allows course rfl) (answer_answered s q)
    rw [ServedAt]
    by_cases own : partition = y
    · subst own
      rw [Function.update_self, round_desk_ask]
      exact served_act h (accord.held partition) act
    · rw [Function.update_of_ne own]
      have reads : (now y).desk.Reads (now y).batch := round_reads course
      have strangers : ∀ t ∈ (now y).desk.tickets, t.event.campaign ≠ campaign := by
        intro t member same
        obtain ⟨in_batch, decoded⟩ := reads_ticket reads member
        exact own (expected t.message in_batch t.event decoded same).symm
      refine served_elsewhere h (accord.held y) act strangers ?_
      intro x member same
      obtain ⟨t, at_desk, decided⟩ := reads_decided reads member
      exact strangers t at_desk (decided.trans same)
  closed := by
    intro past now s y goesOn h expected course
    rw [ServedAt]
    by_cases own : partition = y
    · subst own
      rw [Function.update_self, Function.update_self]
      refine served_congr h ?_ ?_
      · rw [List.flatMap_append, List.flatMap_singleton]
        exact List.append_nil _
      · exact (Desk.decided_closed (d := (now partition).desk) (round_closed course)).symm
    · rw [Function.update_of_ne own, Function.update_of_ne own]
      exact h
  changed := by
    intro past now s s' h same
    rw [ServedAt, same]
    exact h

abbrev Serving (b : Backoff) (size : Nat) (sent : Int → List Message) (campaign stock partition : Int)
    (c : MemoryCrew) : Prop :=
  Kept b size sent (ServedAt campaign stock partition) c

variable {sent : Int → List Message} {campaign stock : Int} {c : MemoryCrew}

theorem serving_run (h : Serving b size sent campaign stock partition c) (some_room : 1 ≤ size)
    (schedule : List (Move Arming)) (only : OnlyAt campaign partition fun y => sent y ++ sentTo schedule y) :
    Serving b size (fun y => sent y ++ sentTo schedule y) campaign stock partition
      (c.run Faulty.settleMemory Faulty.arm b schedule) :=
  kept_run h (served_upkeep b campaign stock partition) some_room schedule only fun e _ =>
    arm_allowed fun s => change_holdings s e

theorem serving_start {launches : List Launch} (distinct : (launches.map Launch.id).Nodup) {x : Launch}
    (member : x ∈ launches) (stocked : 0 ≤ x.stock) (b : Backoff) (s : Station (Faulty MemoryLedger))
    (injections : List (Injection CallKind Fault)) (batchSize capacity : Nat) (flow : Bool) (partition : Int) :
    Serving b (max batchSize 1) (fun _ => []) x.id x.stock partition
      (Crew.start (s.opening launches injections) batchSize capacity flow) := by
  obtain ⟨unsold, -, -⟩ := MemoryLedger.opening_rows launches {}
  have orderly : (s.opening launches injections).holdings.Orderly := MemoryLedger.opening_orderly launches
  refine kept_start (served_upkeep b x.id x.stock partition) orderly ?_ batchSize capacity flow
  refine ⟨?_, .launch x.id x.stock x.time, MemoryLedger.opening_campaign distinct member, firstServed_start stocked⟩
  change List.Forall₂ Records [] ((MemoryLedger.opening launches).records.filter _)
  rw [MemoryLedger.opening, unsold]
  exact .nil

theorem committed_isFor {ms : List Message} {d : Desk} (h : d.Reads ms) :
    ∃ part, part.Sublist ms ∧ List.Forall₂ IsFor part d.committed := by
  cases d with
  | idle | opened => exact ⟨[], List.nil_sublist _, .nil⟩
  | settled front => exact entries_isFor h

theorem past_isFor {past : List Round} (h : ∀ r ∈ past, ∃ goesOn, r.Ended b size partition goesOn) :
    ∃ part, part.Sublist (past.map Round.batch).flatten ∧
      List.Forall₂ IsFor part (past.flatMap fun r => r.desk.committed) := by
  induction past with
  | nil => exact ⟨[], .slnil, .nil⟩
  | cons r past ih =>
    obtain ⟨goesOn, ended⟩ := h r List.mem_cons_self
    obtain ⟨first, in_batch, here⟩ := committed_isFor (round_reads ended.course)
    obtain ⟨later, in_rest, rest⟩ := ih fun r member => h r (List.mem_cons_of_mem _ member)
    exact ⟨first ++ later, in_batch.append in_rest, List.rel_append here rest⟩

theorem lined_isFor {sentHere : List Message} {standing : List Message × Bool} {w : Worker}
    (h : Lined b size partition sentHere standing w) :
    ∃ part, part.Sublist sentHere ∧
      List.Forall₂ IsFor part ((w.past.flatMap fun r => r.desk.committed) ++ w.now.desk.committed) := by
  obtain ⟨first, in_past, finished⟩ := past_isFor h.past
  obtain ⟨last, in_batch, here⟩ : ∃ part, part.Sublist (w.phase.batch?.getD []) ∧
      List.Forall₂ IsFor part w.now.desk.committed := by
    cases phase : w.phase with
    | idle | gathering batch =>
      rw [Worker.now, phase]
      exact ⟨[], List.nil_sublist _, .nil⟩
    | busy batch course =>
      have fits := h.phase
      rw [phase] at fits
      rw [Worker.now, phase]
      exact committed_isFor (round_reads fits.2)
  refine ⟨first ++ last, ?_, List.rel_append finished here⟩
  have taken : (first ++ last).Sublist w.batches.flatten := by
    rw [Worker.batches, List.flatten_append]
    refine in_past.append (in_batch.trans ?_)
    cases w.phase.batch? <;> simp
  exact taken.trans ((List.prefix_append _ _).trans h.in_order).sublist

theorem isFor_filter {ms : List Message} {es : List Entry} (h : List.Forall₂ IsFor ms es) (campaign : Int) :
    ∃ part, part.Sublist ms ∧ List.Forall₂ IsFor part (entriesFor campaign es) := by
  induction h with
  | nil => exact ⟨[], .slnil, .nil⟩
  | @cons m e ms es here rest ih =>
    obtain ⟨part, within, all⟩ := ih
    by_cases own : e.campaign = campaign
    · exact ⟨m :: part, within.cons_cons m, by simpa [entriesFor, own] using ⟨here, all⟩⟩
    · exact ⟨part, within.cons m, by simpa [entriesFor, own] using all⟩

structure RecordFor (m : Message) (r : Record) : Prop where
  event : m.decode = .ok ⟨r.campaign, r.user⟩
  partition : r.partition = some m.receipt.partition
  offset : r.offset = some m.receipt.offset
  sentAt : r.sentAt = m.receipt.sentAt

theorem recordFor_of_entry {m : Message} {e : Entry} {r : Record} (written : IsFor m e) (kept : Records e r) :
    RecordFor m r := by
  rw [kept]
  exact ⟨written.event, written.partition, written.offset, written.sentAt⟩

theorem records_recordFor {ms : List Message} {es : List Entry} {rs : List Record} (written : List.Forall₂ IsFor ms es)
    (kept : List.Forall₂ Records es rs) : List.Forall₂ RecordFor ms rs := by
  induction written generalizing rs with
  | nil =>
    cases kept
    exact .nil
  | cons here rest ih =>
    cases kept with
    | cons kept_here kept_rest => exact .cons (recordFor_of_entry here kept_here) (ih kept_rest)

theorem records_status {es : List Entry} {rs : List Record} (h : List.Forall₂ Records es rs) :
    rs.map Record.status = (es.map Entry.result).map Ledger.Result.name := by
  induction h with
  | nil => rfl
  | cons here rest ih =>
    rw [List.map_cons, List.map_cons, List.map_cons, ih, here]
    rfl

theorem resultsFor_entries (campaign : Int) (es : List Entry) :
    resultsFor campaign (es.map Entry.decision) = (entriesFor campaign es).map Entry.result := by
  induction es with
  | nil => rfl
  | cons e es ih =>
    by_cases own : e.campaign = campaign <;>
      simpa [resultsFor, entriesFor, Entry.decision, own] using ih

/-- The records `rs` of a campaign with `stock` units are for some of the messages `sent`, in the order in which
these were dispatched, and the units went to the first of them. -/
structure ServedInTurn (sent : List Message) (stock : Int) (rs : List Record) : Prop where
  in_order : ∃ part, part.Sublist sent ∧ List.Forall₂ RecordFor part rs
  ranked : ∃ a b : Nat, rs.map Record.status = List.replicate a "SUCCESS" ++ List.replicate b "FAIL" ∧ a ≤ stock ∧
    (0 < b → a = stock)

theorem serving_inTurn (h : Serving b size sent campaign stock partition c) :
    ServedInTurn (sent partition) stock (c.station.store.inner.recordsOf campaign) := by
  obtain ⟨log, campaign', found, ranked⟩ := h.known
  obtain ⟨part, within, written⟩ := lined_isFor (h.manned.lined partition)
  obtain ⟨own, within_part, all⟩ := isFor_filter written campaign
  refine ⟨⟨own, within_part.trans within, records_recordFor all log⟩, ?_⟩
  rw [resultsFor_append, resultsFor_entries] at ranked
  obtain ⟨a, b, results, nonneg, sum, empty⟩ := firstServed_undone ranked
  refine ⟨a, b, ?_, by omega, fun some_fail => by have := empty some_fail; omega⟩
  refine (records_status log).trans ?_
  rw [results]
  simp [Ledger.Result.name]

/-- Whatever the schedule and the failures are. -/
theorem first_come_first_served {launches : List Launch} (distinct : (launches.map Launch.id).Nodup) {x : Launch}
    (member : x ∈ launches) (stocked : 0 ≤ x.stock) (b : Backoff) (s : Station (Faulty MemoryLedger))
    (injections : List (Injection CallKind Fault)) (batchSize capacity : Nat) (flow : Bool)
    (schedule : List (Move Arming)) {partition : Int}
    (only : ∀ m ∈ schedule.filterMap Move.sent?, ∀ e, m.decode = .ok e → e.campaign = x.id →
      m.receipt.partition = partition) :
    let start := Crew.start (s.opening launches injections) batchSize capacity flow
    let stop := start.run Faulty.settleMemory Faulty.arm b schedule
    ServedInTurn (sentTo schedule partition) x.stock (stop.station.store.inner.recordsOf x.id) := by
  intro start stop
  have begun : Serving b (max batchSize 1) (fun _ => []) x.id x.stock partition start :=
    serving_start distinct member stocked b s injections batchSize capacity flow partition
  have only_here : OnlyAt x.id partition fun y => [] ++ sentTo schedule y := by
    intro y m sent e decoded own
    have sent_here : m ∈ sentTo schedule y := sent
    rw [sentTo, List.mem_filter] at sent_here
    have here : m.receipt.partition = y := by simpa using sent_here.2
    rw [← here]
    exact only m sent_here.1 e decoded own
  have served := serving_inTurn (serving_run begun (Nat.le_max_right _ _) schedule only_here)
  rwa [List.nil_append] at served

def rush : List (Move Arming) :=
  [.change (.store (.mishaps { appends := .times 1 })), .dispatch (taking 0 0), .dispatch (taking 0 1), .receive 0,
    .gather 0, .dispatch (taking 0 2), .gather 0] ++ List.replicate 40 (.turn 0) ++
    [.receive 0, .gather 0, .gather 0] ++ List.replicate 20 (.turn 0)

theorem first_come_first_served_rush :
    let start := Crew.start (stand.opening [⟨1, 2, epoch⟩] []) 2 8 true
    let stop := start.run Faulty.settleMemory Faulty.arm twice rush
    ([⟨1, 2, epoch⟩].map Launch.id).Nodup ∧ (0 : Int) ≤ 2 ∧
      (∀ m ∈ rush.filterMap Move.sent?, ∀ e, m.decode = .ok e → e.campaign = 1 → m.receipt.partition = 0) ∧
      (stop.station.store.inner.recordsOf 1).map Record.status = ["SUCCESS", "SUCCESS", "FAIL"] ∧
      ServedInTurn (sentTo rush 0) 2 (stop.station.store.inner.recordsOf 1) := by
  have here : ∀ m ∈ rush.filterMap Move.sent?, m.receipt.partition = 0 := by decide +kernel
  have only : ∀ m ∈ rush.filterMap Move.sent?, ∀ e, m.decode = .ok e → e.campaign = 1 → m.receipt.partition = 0 :=
    fun m sent _ _ _ => here m sent
  refine ⟨by decide, by decide, only, by decide +kernel, ?_⟩
  exact first_come_first_served (x := ⟨1, 2, epoch⟩) (by decide) (by simp) (by decide) twice stand [] 2 8 true rush only

end CampaignSettlement.Settlement
