import CampaignSettlement.Proofs.Settlement.Passing
import CampaignSettlement.Proofs.Settlement.Serving
import CampaignSettlement.Proofs.Settlement.Shutdown
import CampaignSettlement.Proofs.Settlement.Trading

/-!
Totals that do not depend on the schedule. When no failure is armed and all queues have been drained, the log has one
record for each message to a campaign that is known; as many of a campaign's participations have succeeded as its
stock allowed, and the others were refused.
-/
namespace CampaignSettlement.Settlement

open Ledger (Arming Entry Faulty Launch MemoryLedger Record)
open Wire (Message)

def Round.Settled (r : Round) : Prop := (∃ front, r.desk = .settled front) ∨ readable r.batch = []

section Rounds

variable {b : Backoff} {partition : Int} {batch : List Message} {asked : List Exchange} {goesOn : Bool}

theorem ended_batch (some_message : batch ≠ []) (course : (round b partition batch).Leads asked (.done goesOn)) :
    ∃ x xs zs report, asked = x :: (xs ++ zs) ∧ (processBatch b batch).Leads xs (.done report) ∧
      deskAfter batch asked = deskAfter batch xs := by
  obtain ⟨offset, last⟩ := lastOffset_some some_message
  rcases round_split course with ⟨-, same⟩ | ⟨xs, rfl, ⟨left, -, same⟩ | ⟨ys, zs, report, rfl, finished, later⟩⟩
  · cases same
  · cases left with
    | ask q next => cases same
    | done report => exact absurd same.symm (acknowledge_goes_on last goesOn)
  · refine ⟨_, ys, zs, report, rfl, finished, ?_⟩
    have quiet := (roundWatch_quiet ⟨.idle (batch.filterMap ticketOf), []⟩
      (q := .account partition batch.length) id rfl).2 ()
    have still := Program.keeps_leads (acknowledge_keeps partition batch
      (Desk.watch.track ⟨.idle (batch.filterMap ticketOf), []⟩ ys)) later
    have first : Desk.watch.track ⟨.idle (batch.filterMap ticketOf), []⟩
          (⟨.account partition batch.length, ()⟩ :: (ys ++ zs)) =
        Desk.watch.track ⟨.idle (batch.filterMap ticketOf), []⟩ (ys ++ zs) :=
      congrArg (Desk.watch.track · (ys ++ zs)) quiet
    rw [deskAfter, first, Watch.track_append]
    exact congrArg View.desk still

theorem untroubled_settled (some_message : batch ≠ []) (course : (round b partition batch).Leads asked (.done goesOn))
    (fine : failuresIn asked = []) : Round.Settled ⟨batch, asked⟩ := by
  obtain ⟨x, xs, zs, report, rfl, finished, same⟩ := ended_batch some_message course
  change (∃ front, deskAfter batch _ = .settled front) ∨ _
  rw [same]
  have none : failuresIn xs = [] := by
    change failuresIn ([x] ++ (xs ++ zs)) = [] at fine
    simp only [failuresIn_append, List.append_eq_nil_iff] at fine
    exact fine.2.1
  have ends := Program.keeps_leads (processBatch_keeps b batch) finished
  have finishes := batch_finishes finished
  rw [none] at finishes
  rw [deskAfter]
  generalize Desk.watch.track _ xs = v at ends ⊢
  generalize trouble : Trouble.mk [] (lettersIn xs) = w at finishes
  cases finishes with
  | unread none_readable refused => exact Or.inr none_readable
  | attempted some_readable refused closes =>
    cases closes with
    | givenUp => simp at trouble
    | @committed items front fs ls settles =>
      generalize outcomes : items.map Item.outcome = os at ends
      cases ends with
      | committed settles => exact Or.inl ⟨_, rfl⟩
      | givenUp reason failed fits =>
        have member := givenUp_some reason fits some_readable
        rw [← outcomes] at member
        exact absurd failed (settles_alone settles member)

end Rounds

def addressed (known : Int → Prop) [DecidablePred known] (ms : List Message) : List Message :=
  ms.filter fun m => m.decode.toOption.any fun e => known e.campaign

section Addressed

variable {known : Int → Prop} [DecidablePred known]

theorem addressed_append (ms more : List Message) :
    addressed known (ms ++ more) = addressed known ms ++ addressed known more :=
  List.filter_append ..

theorem addressed_unread {ms : List Message} (none_readable : readable ms = []) : addressed known ms = [] := by
  refine List.filter_eq_nil_iff.mpr ?_
  intro m member
  have unread := List.filter_eq_nil_iff.mp none_readable m member
  cases decoded : m.decode with
  | error detail => simp [Except.toOption]
  | ok e => simp [decoded, Except.toOption] at unread

theorem addressed_cards (ms : List Message) :
    ((ms.filterMap cardOf).filter fun card => known card.2.campaign).map Prod.fst = addressed known ms := by
  induction ms with
  | nil => rfl
  | cons m ms ih =>
    cases decoded : m.decode with
    | error detail => simpa [cardOf, addressed, decoded, Except.toOption] using ih
    | ok e =>
      by_cases own : known e.campaign <;> simpa [cardOf, addressed, decoded, Except.toOption, own] using ih

theorem settled_addressed {ms : List Message} {front : List Passed} (reads : (Desk.settled front).Reads ms)
    (agrees : (Desk.settled front).Agrees known) :
    List.Forall₂ IsFor (addressed known ms) (Desk.settled front).committed := by
  have cards : (front.map Passed.ticket).map Ticket.card = ms.filterMap cardOf := reads.cards
  have same : writtenFor front = addressed known ms := by
    rw [← addressed_cards, ← cards, List.map_map, List.filter_map, List.map_map, writtenFor]
    refine congrArg (List.map _) (List.filter_congr ?_)
    intro x member
    rw [Bool.eq_iff_iff, agrees.passed x member]
    exact decide_eq_true_iff.symm
  rw [← same]
  refine writtenFor_isFor ?_
  intro x member e written
  have at_desk : x.ticket ∈ (Desk.settled front).tickets := List.mem_map_of_mem member
  exact ⟨(reads_ticket reads at_desk).2, reads.own x member e written⟩

variable {b : Backoff} {size : Nat} {partition : Int}

theorem round_addressed {r : Round} {goesOn : Bool} (ended : r.Ended b size partition goesOn) (settled : r.Settled)
    (agrees : r.desk.Agrees known) : List.Forall₂ IsFor (addressed known r.batch) r.desk.committed := by
  have reads : r.desk.Reads r.batch := round_reads ended.course
  rcases settled with ⟨front, at_desk⟩ | none_readable
  · rw [at_desk] at reads agrees ⊢
    exact settled_addressed reads agrees
  · obtain ⟨part, within, written⟩ := committed_isFor reads
    rw [addressed_unread none_readable]
    generalize r.desk.committed = es at written ⊢
    cases written with
    | nil => exact .nil
    | @cons m e part es here rest =>
      have in_batch : m ∈ r.batch := within.subset List.mem_cons_self
      have unread := List.filter_eq_nil_iff.mp none_readable m in_batch
      simp [here.event, Except.toOption] at unread

theorem past_addressed {past : List Round} (ended : ∀ r ∈ past, ∃ goesOn, r.Ended b size partition goesOn)
    (settled : ∀ r ∈ past, r.Settled) (agrees : ∀ r ∈ past, r.desk.Agrees known) :
    List.Forall₂ IsFor (addressed known (past.map Round.batch).flatten) (past.flatMap fun r => r.desk.committed) := by
  induction past with
  | nil => exact .nil
  | cons r past ih =>
    obtain ⟨goesOn, own⟩ := ended r List.mem_cons_self
    have here := round_addressed own (settled r List.mem_cons_self) (agrees r List.mem_cons_self)
    have rest := ih (fun r member => ended r (List.mem_cons_of_mem _ member))
      (fun r member => settled r (List.mem_cons_of_mem _ member))
      fun r member => agrees r (List.mem_cons_of_mem _ member)
    rw [List.map_cons, List.flatten_cons, addressed_append, List.flatMap_cons]
    exact List.rel_append here rest

end Addressed

/-- Lists that are related key by key are related as a whole, after some rearrangement. -/
theorem forall₂_of_fibers {α β κ : Type} [DecidableEq κ] {R : α → β → Prop} {f : α → κ} {g : β → κ} {as : List α}
    {bs : List β} (fibers : ∀ k, List.Forall₂ R (as.filter (f · = k)) (bs.filter (g · = k))) :
    ∃ cs, cs.Perm as ∧ List.Forall₂ R cs bs := by
  induction bs generalizing as with
  | nil =>
    cases as with
    | nil => exact ⟨[], .nil, .nil⟩
    | cons a as =>
      have own := fibers (f a)
      simp at own
  | cons b bs ih =>
    have own := fibers (g b)
    rw [List.filter_cons_of_pos (by simp)] at own
    cases split : as.filter (f · = g b) with
    | nil =>
      rw [split] at own
      cases own
    | cons a rest =>
      rw [split] at own
      obtain ⟨here, later⟩ := List.forall₂_cons.mp own
      obtain ⟨before, after, rfl, none, first, rfl⟩ := List.filter_eq_cons_iff.mp split
      have key : f a = g b := of_decide_eq_true first
      have smaller : ∀ k, List.Forall₂ R ((before ++ after).filter (f · = k)) (bs.filter (g · = k)) := by
        intro k
        rw [List.filter_append]
        by_cases same : k = g b
        · subst same
          rw [List.filter_eq_nil_iff.mpr none]
          exact later
        · have whole := fibers k
          rw [List.filter_cons_of_neg (by simp [Ne.symm same]), List.filter_append,
            List.filter_cons_of_neg (by simp [key, Ne.symm same])] at whole
          exact whole
      obtain ⟨cs, perm, related⟩ := ih smaller
      exact ⟨a :: cs, (perm.cons a).trans List.perm_middle.symm, .cons here related⟩

/-- Nobody is at work, nothing is queued, and nothing was lost. -/
def Drained {σ : Type} (c : Crew σ) : Prop :=
  ∀ p, (c.worker p).phase = .idle ∧ (c.station.pool.lane p).queue = [] ∧ (c.station.pool.lane p).alive = true

/-- What is left of a campaign when `n` participations have been settled. -/
structure SoldUpTo (x : Launch) (n : Nat) (l : MemoryLedger) : Prop where
  successes : ((l.recordsOf x.id).countP (·.status == "SUCCESS") : Int) = min x.stock n
  fails : ((l.recordsOf x.id).countP (·.status == "FAIL") : Int) = n - min x.stock n
  stock : ∃ c, l.campaign? x.id = some c ∧ c.currentStock = x.stock - min x.stock n

/-- All messages `sent` have been settled: those to the campaigns `launches` by one record each, no other by any. -/
structure AllSettled (launches : List Launch) (sent : List Message) (l : MemoryLedger) : Prop where
  sold : ∀ x ∈ launches, SoldUpTo x (addressed (· = x.id) sent).length l
  recorded : ∃ ms, ms.Perm (addressed (· ∈ launches.map Launch.id) sent) ∧ List.Forall₂ RecordFor ms l.records

section Drained

variable {launches : List Launch} {b : Backoff} {size : Nat} {sent : Int → List Message} {c : MemoryCrew}

theorem drained_now (drained : Drained c) (y : Int) : (c.worker y).now = .none := by
  rw [Worker.now, (drained y).1]

theorem drained_batches (manned : Manned b size sent c) (drained : Drained c) (y : Int) :
    ((c.worker y).past.map Round.batch).flatten = sent y := by
  obtain ⟨idle, empty, alive⟩ := drained y
  have kept := (manned.lined y).kept alive
  rw [Worker.batches, idle] at kept
  have queue : (c.station.pool.standing y).1 = [] := empty
  simpa [Phase.batch?, queue] using kept

theorem drained_closed (trading : Kept b size sent (SmoothTrading launches) c)
    (drained : Drained c) : c.station.holdings.works = [] := by
  cases works : c.station.holdings.works with
  | nil => rfl
  | cons row rows =>
    obtain ⟨y, own⟩ := trading.known.2.owned row.1 row.2 (by rw [works]; simp [Ledger.Table.get?])
    rw [drained_now drained] at own
    cases own

theorem now_entries (past : List Round) : entriesOf past .none = past.flatMap fun r => r.desk.committed :=
  List.append_nil _

theorem drained_log {known : Int → Prop} [DecidablePred known]
    (trading : Kept b size sent (SmoothTrading launches) c)
    (marked : Kept b size sent (Marked known) c) (logged : Kept b size sent (Logged []) c) (drained : Drained c) (y : Int) :
    List.Forall₂ RecordFor (addressed known (sent y)) (recordsAt y c.station.holdings.records) := by
  obtain ⟨new, log, own, -⟩ := logged.known
  have kept := own y
  rw [drained_now drained, now_entries] at kept
  rw [log, List.nil_append]
  have settled : ∀ r ∈ (c.worker y).past, r.Settled := by
    intro r member
    obtain ⟨goesOn, ended⟩ := (logged.manned.lined y).past r member
    exact untroubled_settled ended.sized.some_message ended.course ((trading.known.1.2 y).2 r member).1
  have written := past_addressed (logged.manned.lined y).past settled fun r member => (marked.known.2 y).2 r member
  rw [drained_batches logged.manned drained] at written
  exact records_recordFor written kept

theorem logged_entry (logged : Kept b size sent (Logged []) c) {r : Record} (member : r ∈ c.station.holdings.records) :
    ∃ y, ∃ e ∈ entriesOf (c.worker y).past (c.worker y).now, Records e r := by
  obtain ⟨new, log, own, placed⟩ := logged.known
  rw [log, List.nil_append] at member
  obtain ⟨y, at_y⟩ := placed r member
  have here : r ∈ recordsAt y new := List.mem_filter.mpr ⟨member, by simpa using at_y⟩
  exact ⟨y, recorded_entry (own y) here⟩

theorem refused_spent
    (trading : Kept b size sent (SmoothTrading launches) c)
    (logged : Kept b size sent (Logged []) c) {r : Record} (member : r ∈ c.station.holdings.records)
    (refused : r.status = "FAIL") : ∀ x ∈ c.station.holdings.campaigns.get? r.campaign, x.currentStock ≤ 0 := by
  obtain ⟨y, e, entered, kept⟩ := logged_entry logged member
  have result : e.result = .fail := by
    rw [kept] at refused
    cases result : e.result with
    | fail => rfl
    | success => simp [Record.ofEntry, result, Ledger.Result.name] at refused
  have own : r.campaign = e.campaign := by rw [kept]; rfl
  obtain ⟨round, at_worker, committed⟩ :
      ∃ round ∈ (c.worker y).past ++ [(c.worker y).now], e ∈ round.desk.committed := by
    rcases List.mem_append.mp entered with earlier | last
    · obtain ⟨round, before, committed⟩ := List.mem_flatMap.mp earlier
      exact ⟨round, List.mem_append_left _ before, committed⟩
    · exact ⟨_, by simp, last⟩
  have decided : e.decision ∈ round.desk.decisions := List.mem_append_left _ (List.mem_map_of_mem committed)
  rw [own]
  exact trading.known.2.spent y round at_worker e.decision decided result

end Drained

theorem addressed_filter {known : Int → Prop} [DecidablePred known] (p : Message → Bool) (ms : List Message) :
    addressed known (ms.filter p) = (addressed known ms).filter p := by
  simp [addressed, List.filter_filter, Bool.and_comm]

theorem addressed_own {known : Int → Prop} [DecidablePred known] {id : Int} (own : known id) (ms : List Message) :
    addressed (· = id) (addressed known ms) = addressed (· = id) ms := by
  rw [addressed, addressed, addressed, List.filter_filter]
  refine List.filter_congr ?_
  intro m _
  cases m.decode with
  | error detail => rfl
  | ok e =>
    by_cases here : e.campaign = id
    · simp [Except.toOption, here, own]
    · simp [Except.toOption, here]

theorem records_addressed {ms : List Message} {rs : List Record} (h : List.Forall₂ RecordFor ms rs) (id : Int) :
    (rs.filter (·.campaign == id)).length = (addressed (· = id) ms).length := by
  induction h with
  | nil => rfl
  | @cons m r ms rs here rest ih =>
    by_cases own : r.campaign = id <;>
      simpa [addressed, here.event, Except.toOption, own] using ih

theorem count_results {rs : List Record} (named : ∀ r ∈ rs, r.status = "SUCCESS" ∨ r.status = "FAIL") :
    rs.countP (·.status == "SUCCESS") + rs.countP (·.status == "FAIL") = rs.length := by
  rw [List.length_eq_countP_add_countP (·.status == "SUCCESS")]
  refine congrArg (_ + ·) (List.countP_congr ?_)
  intro r member
  rcases named r member with same | same <;> simp [same]

section Settled

variable {launches : List Launch} {b : Backoff} {size : Nat} {c : MemoryCrew} {schedule : List (Move Arming)}

theorem drained_recorded {known : Int → Prop} [DecidablePred known]
    (trading : Kept b size (sentTo schedule) (SmoothTrading launches) c)
    (marked : Kept b size (sentTo schedule) (Marked known) c) (logged : Kept b size (sentTo schedule) (Logged []) c)
    (drained : Drained c) :
    ∃ ms, ms.Perm (addressed known (schedule.filterMap Move.sent?)) ∧
      List.Forall₂ RecordFor ms c.station.holdings.records := by
  refine forall₂_of_fibers (f := fun m => some m.receipt.partition) (g := Record.partition) ?_
  rintro (_ | y)
  · have unplaced : c.station.holdings.records.filter (·.partition = none) = [] := by
      refine List.filter_eq_nil_iff.mpr ?_
      intro r member
      obtain ⟨new, log, -, placed⟩ := logged.known
      rw [log, List.nil_append] at member
      obtain ⟨y, at_y⟩ := placed r member
      simp [at_y]
    rw [unplaced, List.filter_eq_nil_iff.mpr (by simp)]
    exact .nil
  · have here := drained_log trading marked logged drained y
    rw [sentTo, addressed_filter] at here
    simpa [recordsAt] using here

theorem drained_sold
    (trading : Kept b size (sentTo schedule) (SmoothTrading launches) c)
    (logged : Kept b size (sentTo schedule) (Logged []) c) (drained : Drained c) {x : Launch} (member : x ∈ launches)
    {n : Nat} (settled : (c.station.store.inner.recordsOf x.id).length = n) : SoldUpTo x n c.station.store.inner := by
  obtain ⟨campaign, found, nonneg, sum⟩ := trading.known.2.balanced x member
  have unheld : c.station.holdings.held x.id = 0 := by
    rw [Ledger.Holdings.held, drained_closed trading drained]
    rfl
  have successes : (c.station.store.inner.recordsOf x.id).countP (·.status == "SUCCESS") = c.station.holdings.sold x.id :=
    rfl
  have named : ∀ r ∈ c.station.store.inner.recordsOf x.id, r.status = "SUCCESS" ∨ r.status = "FAIL" := by
    intro r at_campaign
    obtain ⟨y, e, -, kept⟩ := logged_entry logged (List.mem_filter.mp at_campaign).1
    rw [kept]
    cases result : e.result <;> simp [Record.ofEntry, result, Ledger.Result.name]
  have all := count_results named
  have spent : 0 < (c.station.store.inner.recordsOf x.id).countP (·.status == "FAIL") → campaign.currentStock ≤ 0 := by
    intro some_refusal
    obtain ⟨r, at_campaign, refused⟩ := List.countP_pos_iff.mp some_refusal
    obtain ⟨at_log, own⟩ := List.mem_filter.mp at_campaign
    have here : r.campaign = x.id := by simpa using own
    exact refused_spent trading logged at_log (by simpa using refused) campaign (here ▸ found)
  refine ⟨?_, ?_, campaign, found, ?_⟩
  · omega
  · omega
  · omega

theorem drained_settled
    (trading : Kept b size (sentTo schedule) (SmoothTrading launches) c)
    (marked : Kept b size (sentTo schedule) (Marked (· ∈ launches.map Launch.id)) c)
    (logged : Kept b size (sentTo schedule) (Logged []) c) (drained : Drained c) {sent : List Message}
    (dispatched : (schedule.filterMap Move.sent?).Perm sent) : AllSettled launches sent c.station.store.inner := by
  obtain ⟨ms, perm, recorded⟩ := drained_recorded trading marked logged drained
  have settled : ms.Perm (addressed (· ∈ launches.map Launch.id) sent) := perm.trans (dispatched.filter _)
  refine ⟨?_, ms, settled, recorded⟩
  intro x member
  refine drained_sold trading logged drained member ?_
  have own : x.id ∈ launches.map Launch.id := List.mem_map_of_mem member
  have at_campaign := (settled.filter fun m => m.decode.toOption.any fun e => e.campaign = x.id).length_eq
  rw [← addressed_own own]
  exact (records_addressed recorded x.id).trans at_campaign

end Settled

def Harmless : Station.Change Arming → Prop
  | .store (.injections js) => js = []
  | .store (.mishaps m) => m.Calm
  | _ => True

def Unbreaking : Station.Change Arming → Prop
  | .acks _ breaking => breaking = false
  | _ => True

theorem calm_change {s : MemoryStation} (calm : s.store.Calm) {e : Station.Change Arming} (harmless : Harmless e) :
    (s.change Faulty.arm e).store.Calm := by
  cases e with
  | store a =>
    cases a with
    | injections js => exact ⟨harmless, calm.mishaps⟩
    | mishaps m => exact ⟨calm.uninjected, harmless⟩
    | clock t => exact ⟨calm.uninjected, calm.mishaps⟩
  | _ => exact calm

def StaysWhole : Shift := fun s s' => s.acks.breaking = false → s'.acks.breaking = false

def Unbroken : Knowledge := Each (fun s => s.acks.breaking = false) fun r => ∀ p o, ⟨.ack p o, .broken⟩ ∉ r.asked

theorem unbroken_upkeep (b : Backoff) (Q : Int → Message → Prop) : Upkeep b Q StaysWhole Unbroken := by
  refine Upkeep.each (fun whole pool signals => whole) (fun batch p o member => by cases member) ?_
    fun whole stays => stays whole
  intro s r q whole unbroken held allowed
  have answered : (s.answer Faulty.settleMemory q).1.acks.breaking = false ∧
      ∀ p o, (⟨q, (s.answer Faulty.settleMemory q).2⟩ : Exchange) ≠ ⟨.ack p o, .broken⟩ := by
    cases q with
    | ack partition offset =>
      simp only [Station.answer, Station.ack, whole, Bool.false_eq_true, if_false, true_and]
      intro p o same
      split at same <;> cases same
    | _ => exact ⟨whole, fun p o same => by cases same⟩
  refine ⟨answered.1, ?_⟩
  intro p o member
  rcases List.mem_append.mp member with earlier | last
  · exact unbroken p o earlier
  · exact answered.2 p o (List.mem_singleton.mp last).symm

theorem whole_change {s : MemoryStation} (whole : s.acks.breaking = false) {e : Station.Change Arming}
    (unbreaking : Unbreaking e) : (s.change Faulty.arm e).acks.breaking = false := by
  cases e with
  | acks failing breaking => exact unbreaking
  | _ => exact whole

theorem unbroken_alive {b : Backoff} {size : Nat} {sent : Int → List Message} {c : MemoryCrew}
    (h : Kept b size sent Unbroken c) (y : Int) : (c.station.pool.lane y).alive = true := by
  cases alive : (c.station.pool.lane y).alive with
  | true => rfl
  | false =>
    obtain ⟨-, -, -, r, member, ended⟩ := (h.manned.lined y).lost alive
    obtain ⟨offset, broken⟩ := (round_ended ended.sized.some_message ended.course).2 rfl
    exact absurd broken (((h.known.2 y).2 r member) y offset)

theorem Kept.works {b : Backoff} {size : Nat} {sent : Int → List Message} {Q : Int → Message → Prop}
    {E : Shift} {P : Knowledge} {c c' : MemoryCrew} (h : Kept b size sent P c)
    (upkeep : Upkeep b Q E P) (some_room : 1 ≤ size) (expected : Expected Q sent)
    (worked : Works Faulty.settleMemory Faulty.arm b c c') : Kept b size sent P c' := by
  obtain ⟨schedule, own, rfl⟩ := worked
  have quiet := sentTo_own own
  have ran : Kept b size (fun y => sent y ++ sentTo schedule y) P (c.run Faulty.settleMemory Faulty.arm b schedule) :=
    kept_run h upkeep some_room schedule (by simpa [quiet] using expected) fun e member => absurd (own _ member) id
  simpa [quiet] using ran

theorem opening_tells {launches : List Launch} (distinct : (launches.map Launch.id).Nodup) (s : MemoryStation) :
    Tells (· ∈ launches.map Launch.id) (s.opening launches []) := by
  intro id
  change ((MemoryLedger.opening launches).campaigns.get? id).isSome ↔ _
  by_cases member : id ∈ launches.map Launch.id
  · obtain ⟨x, at_launch, rfl⟩ := List.mem_map.mp member
    rw [MemoryLedger.opening_campaign distinct at_launch]
    exact ⟨fun _ => member, fun _ => rfl⟩
  · have none : (MemoryLedger.opening launches).campaigns.get? id = none := MemoryLedger.opening_others member {}
    simp [none, member]

theorem logged_start {launches : List Launch} (s : MemoryStation) :
    Logged [] (fun _ => []) (fun _ => .none) (s.opening launches []) := by
  obtain ⟨empty, -, -⟩ := MemoryLedger.opening_rows launches {}
  exact ⟨[], empty, fun y => .nil, List.forall_mem_nil _⟩

/-- For all schedules in which the messages `sent` are dispatched, in whatever order; and the workers can go on until
all have been settled, unless an acknowledgement breaks one of them. -/
theorem totals_settled {launches : List Launch} (distinct : (launches.map Launch.id).Nodup)
    (stocked : ∀ x ∈ launches, 0 ≤ x.stock) (b : Backoff) (s : Station (Faulty MemoryLedger)) (batchSize capacity : Nat)
    (flow : Bool) {schedule : List (Move Arming)} (harmless : ∀ e, .change e ∈ schedule → Harmless e)
    {sent : List Message} (dispatched : (schedule.filterMap Move.sent?).Perm sent) :
    let start := Crew.start (s.opening launches []) batchSize capacity flow
    let stop := start.run Faulty.settleMemory Faulty.arm b schedule
    (Drained stop → AllSettled launches sent stop.station.store.inner) ∧
      (s.acks.breaking = false → (∀ e, .change e ∈ schedule → Unbreaking e) →
        ∃ c, Works Faulty.settleMemory Faulty.arm b stop c ∧ Drained c ∧
          AllSettled launches sent c.station.store.inner) := by
  intro start stop
  have some_room : 1 ≤ max batchSize 1 := Nat.le_max_right _ _
  have orderly : (s.opening launches []).holdings.Orderly := MemoryLedger.opening_orderly launches
  have placed : Expected Placed (sentTo schedule) := sent_placed schedule
  have trading := kept_after (trading_upkeep b Placed launches) orderly (trading_start distinct stocked s) batchSize
    capacity flow schedule placed fun e member =>
      arm_allowed fun s => ⟨fun calm => calm_change calm (harmless e member), change_holdings s e⟩
  have marked := kept_after (marked_upkeep b Placed (· ∈ launches.map Launch.id)) orderly
    ⟨opening_tells distinct s, fun y => ⟨agrees_start [], List.forall_mem_nil _⟩⟩ batchSize capacity flow schedule placed
    fun e _ => arm_allowed fun s tells => by rw [Tells, change_holdings]; exact tells
  have logged := kept_after (logged_upkeep b []) orderly (logged_start s) batchSize capacity flow schedule placed
    fun e _ => arm_allowed fun s => congrArg Ledger.Holdings.records (change_holdings s e)
  constructor
  · intro drained
    exact drained_settled trading marked logged drained dispatched
  · intro whole unbreaking
    have unbroken := kept_after (unbroken_upkeep b Placed) orderly
      ⟨whole, fun y => ⟨fun p o => List.not_mem_nil, List.forall_mem_nil _⟩⟩ batchSize capacity flow schedule placed
      fun e member => arm_allowed fun s whole => whole_change whole (unbreaking e member)
    obtain ⟨c, worked, -, at_rest⟩ := workers_drain Faulty.settleMemory Faulty.arm b trading.manned some_room
    have drained : Drained c := by
      intro p
      have alive := unbroken_alive (unbroken.works (unbroken_upkeep b Placed) some_room placed worked) p
      exact ⟨(at_rest p).1, (at_rest p).2, alive⟩
    refine ⟨c, worked, drained, ?_⟩
    exact drained_settled (trading.works (trading_upkeep b Placed launches) some_room placed worked)
      (marked.works (marked_upkeep b Placed _) some_room placed worked)
      (logged.works (logged_upkeep b []) some_room placed worked) drained dispatched

def sale : List (Move Arming) :=
  [.change (.store (.clock (some epoch))), .dispatch (taking 0 0), .dispatch (taking 0 1), .dispatch (taking 1 0),
    .receive 0, .gather 0, .gather 0, .receive 1, .gather 1] ++ (List.replicate 20 [.turn 0, .turn 1]).flatten

theorem totals_settled_sale :
    let start := Crew.start (stand.opening [⟨1, 2, epoch⟩] []) 2 8 true
    let stop := start.run Faulty.settleMemory Faulty.arm twice sale
    let sent := [taking 1 0, taking 0 0, taking 0 1]
    ([⟨1, 2, epoch⟩].map Launch.id).Nodup ∧ (∀ x ∈ [(⟨1, 2, epoch⟩ : Launch)], 0 ≤ x.stock) ∧
      (∀ e, .change e ∈ sale → Harmless e ∧ Unbreaking e) ∧ (sale.filterMap Move.sent?).Perm sent ∧
      (stop.station.store.inner.recordsOf 1).map Record.status = ["SUCCESS", "SUCCESS", "FAIL"] ∧
      ∃ c, Works Faulty.settleMemory Faulty.arm twice stop c ∧ Drained c ∧
        AllSettled [⟨1, 2, epoch⟩] sent c.station.store.inner := by
  have changes : ∀ e, .change e ∈ sale → Harmless e ∧ Unbreaking e := by
    intro e member
    obtain rfl : e = .store (.clock (some epoch)) := by simpa [sale] using member
    exact ⟨trivial, trivial⟩
  have dispatched : (sale.filterMap Move.sent?).Perm [taking 1 0, taking 0 0, taking 0 1] := by decide +kernel
  refine ⟨by decide, by decide, changes, dispatched, by decide +kernel, ?_⟩
  exact (totals_settled (by decide) (by decide) twice stand 2 8 true (fun e member => (changes e member).1) dispatched).2
    rfl fun e member => (changes e member).2

end CampaignSettlement.Settlement
