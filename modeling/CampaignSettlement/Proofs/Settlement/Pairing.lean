import CampaignSettlement.Proofs.Ledger.Twins
import CampaignSettlement.Proofs.Program.Pairs
import CampaignSettlement.Proofs.Settlement.Cutting
import CampaignSettlement.Proofs.Settlement.Passing

/-!
One ledger for another. Where nothing fails and the time of records is pinned, a batch that is settled over a ledger
in memory and over one of tables asks the same questions of both and is given the same answers; so it comes to the
same report and dead letters, and leaves the same stock and log.
-/
namespace CampaignSettlement.Settlement

open Calendar (Instant)
open Ledger (Campaign Holding MemoryLedger Concur Settler SqlLedger StoreCall TotalsCall Twins Window)
open Wire (Message)

def Station.over {σ τ : Type} (s : Station σ) (store : τ) : Station τ :=
  { store, now := s.now, deadLetterTopic := s.deadLetterTopic, sequence := s.sequence, sink := s.sink,
    delays := s.delays, acks := s.acks, pool := s.pool, signals := s.signals, metrics := s.metrics }

theorem answer_over {σ τ : Type} (settler : Instant → Settler σ) (settler' : Instant → Settler τ) (s : Station σ)
    (store : τ) {q : Ask} (other : ∀ c, q ≠ .store c) :
    ((s.over store).answer settler' q).2 = (s.answer settler q).2 ∧
      ((s.over store).answer settler' q).1 = (s.answer settler q).1.over store := by
  cases q with
  | store c => exact absurd rfl (other c)
  | ack partition offset =>
    cases breaking : s.acks.breaking <;> simp only [Station.answer, Station.ack, Station.over, breaking] <;>
      exact ⟨rfl, rfl⟩
  | _ => exact ⟨rfl, rfl⟩

/-- The two ledgers while a batch is on its way to the desk `d`. -/
def Desk.Books (created : Instant) (l : MemoryLedger) (m : SqlLedger) : Desk → Prop
  | .opened work _ _ _ => Holding created work l m
  | _ => Twins l m ∧ m.tables.records = l.records

structure Desk.Paired (created : Instant) (d : Desk) (l : MemoryLedger) (m : SqlLedger) : Prop where
  books : d.Books created l m
  pinned : l.clock = some created
  sound : d.Sound
  looked : d.Looked fun id => (l.campaigns.get? id).isSome

variable {created : Instant} {d : Desk} {l : MemoryLedger} {m : SqlLedger}

theorem paired_call (h : d.Paired created l m) (whole : created.toMicros = created) (now : Instant) {c : StoreCall}
    (allowed : d.allows (.store c)) :
    ∃ v, (MemoryLedger.settle now l c).2 = .ok v ∧ (m.settle created c).2 = .ok v ∧
      (d.after (.store c) (.ok v)).Paired created (MemoryLedger.settle now l c).1 (m.settle created c).1 := by
  obtain ⟨books, pinned, sound, looked⟩ := h
  have still : (MemoryLedger.settle now l c).1.clock = some created := (l.settle_apart now c).2.2.trans pinned
  cases d with
  | settled front => exact absurd trivial allowed
  | idle tickets =>
    obtain rfl : c = .begin := by simpa using allowed trivial
    obtain ⟨twins, records⟩ := books
    obtain ⟨reply, reply', holding⟩ := Ledger.twins_begin twins records created
    rw [Ledger.settle_up twins]
    exact ⟨_, reply, reply', holding, still, trivial, by cases tickets <;> trivial⟩
  | opened work front step back =>
    have holding : Holding created work l m := books
    rw [Ledger.settle_up holding.twins]
    cases allowed trivial with
    | look t back =>
      have same := holding.twins.known t.event.campaign
      refine ⟨_, rfl, congrArg Except.ok same, ?_⟩
      cases found : (l.campaigns.get? t.event.campaign).isSome with
      | true => exact ⟨holding, still, trivial, found⟩
      | false => exact ⟨holding, still, trivial, by cases back <;> trivial⟩
    | take t back =>
      obtain ⟨same, ⟨taken, reply⟩, holding⟩ := Ledger.holding_decrement holding t.event.campaign
      refine ⟨taken, reply, same.trans reply, holding, still, trivial, ?_⟩
      exact (Ledger.decrement_known l work t.event.campaign t.event.campaign).trans looked
    | @write r t n back numbered =>
      obtain ⟨same, ⟨id, reply⟩, holding⟩ := Ledger.holding_append (e := t.entry r n) holding whole looked
      exact ⟨id, reply, same.trans reply, holding, still, trivial, by cases back <;> trivial⟩
    | commit =>
      obtain ⟨same, reply, level⟩ := Ledger.holding_commit holding pinned now
      exact ⟨(), reply, same.trans reply, level, still, trivial, trivial⟩
    | rollback held back => exact absurd sound id

theorem paired_quiet (h : d.Paired created l m) {q : Ask} (other : ∀ c, q ≠ .store c) (allowed : d.allows q)
    (r : q.Reply) : (d.after q r).Paired created l m := by
  by_cases counts : Desk.Counts q
  · cases q with
    | store c => exact absurd rfl (other c)
    | draw =>
      obtain ⟨work, front, result, t, back, rfl, -⟩ := draw_undrawn allowed
      exact ⟨h.books, h.pinned, trivial, h.looked⟩
    | _ => exact absurd counts id
  · rw [desk_after_quiet d counts]
    exact h

structure Coupled (created : Instant) (d : Desk) (s : Station MemoryLedger) (u : Station SqlLedger) : Prop where
  same : u = s.over u.store
  paired : d.Paired created s.store u.store

theorem coupled_answer {s : Station MemoryLedger} {u : Station SqlLedger} (h : Coupled created d s u)
    (whole : created.toMicros = created) {q : Ask} (allowed : d.allows q) :
    let memory := s.answer MemoryLedger.settle q
    let sql := u.answer (fun _ => SqlLedger.settle created) q
    sql.2 = memory.2 ∧ Coupled created (d.after q memory.2) memory.1 sql.1 := by
  intro memory sql
  obtain ⟨same, paired⟩ := h
  by_cases asks : ∃ c, q = .store c
  · obtain ⟨c, rfl⟩ := asks
    obtain ⟨v, reply, reply', later⟩ := paired_call paired whole s.now allowed
    have replied : memory.2 = .ok v := reply
    rw [replied]
    exact ⟨reply', congrArg (fun x : Station SqlLedger => { x with store := sql.1.store }) same, later⟩
  · have other : ∀ c, q ≠ .store c := fun c own => asks ⟨c, own⟩
    have kept : memory.1.store = s.store := answer_store MemoryLedger.settle s other
    have kept' : sql.1.store = u.store := answer_store _ u other
    obtain ⟨reply, rest⟩ := answer_over MemoryLedger.settle (fun _ => SqlLedger.settle created) s u.store other
    rw [← same] at reply rest
    refine ⟨reply, ?_, ?_⟩
    · rw [kept']
      exact rest
    · rw [kept, kept']
      exact paired_quiet paired other allowed _

structure Visit where
  now : Instant
  created : Instant
  messages : List Message
deriving DecidableEq, Repr

def Visit.overMemory (b : Backoff) (s : Station MemoryLedger) (v : Visit) : Station MemoryLedger × Report :=
  let pinned := { s.store with clock := some v.created }
  Station.perform MemoryLedger.settle { s with now := v.now, store := pinned } (processBatch b v.messages)

def Visit.overTables (b : Backoff) (s : Station SqlLedger) (v : Visit) : Station SqlLedger × Report :=
  Station.perform (fun _ => SqlLedger.settle v.created) { s with now := v.now } (processBatch b v.messages)

def visitAll {σ : Type} (visit : Station σ → Visit → Station σ × Report) :
    Station σ → List Visit → Station σ × List Report
  | s, [] => (s, [])
  | s, v :: vs => ((visitAll visit (visit s v).1 vs).1, (visit s v).2 :: (visitAll visit (visit s v).1 vs).2)

structure Level (s : Station MemoryLedger) (u : Station SqlLedger) : Prop where
  same : u = s.over u.store
  twins : Twins s.store u.store
  records : u.store.tables.records = s.store.records

theorem level_visit {s : Station MemoryLedger} {u : Station SqlLedger} (h : Level s u) (b : Backoff) {v : Visit}
    (whole : v.created.toMicros = v.created) :
    (v.overTables b u).2 = (v.overMemory b s).2 ∧ Level (v.overMemory b s).1 (v.overTables b u).1 := by
  obtain ⟨same, twins, records⟩ := h
  have start : Coupled v.created (.idle (v.messages.filterMap ticketOf))
      { s with now := v.now, store := { s.store with clock := some v.created } } { u with now := v.now } := by
    refine ⟨congrArg (fun x : Station SqlLedger => { x with now := v.now }) same,
      ⟨⟨twins.calm, twins.up, twins.uninjected, twins.lastRecord, twins.lastWork, twins.stock, twins.stats,
        twins.ascending, twins.valid, twins.early⟩, records⟩, rfl, trivial, ?_⟩
    cases v.messages.filterMap ticketOf <;> trivial
  obtain ⟨report, -, view, ends, coupled⟩ := Program.run_pair (R := fun view => Coupled v.created view.desk)
    (Station.answer MemoryLedger.settle) (Station.answer fun _ => SqlLedger.settle v.created)
    (processBatch_keeps b v.messages) start fun _ _ _ _ coupled allowed => coupled_answer coupled whole allowed.1
  have books := coupled.paired.books
  have closed := ends_closed ends
  cases at_desk : view.desk with
  | opened work front step back =>
    rw [at_desk] at closed
    cases closed
  | idle tickets | settled front =>
    rw [at_desk] at books
    exact ⟨report, coupled.same, books.1, books.2⟩

theorem level_visits {s : Station MemoryLedger} {u : Station SqlLedger} (h : Level s u) (b : Backoff)
    {visits : List Visit} (whole : ∀ v ∈ visits, v.created.toMicros = v.created) :
    (visitAll (Visit.overTables b · ·) u visits).2 = (visitAll (Visit.overMemory b · ·) s visits).2 ∧
      Level (visitAll (Visit.overMemory b · ·) s visits).1 (visitAll (Visit.overTables b · ·) u visits).1 := by
  induction visits generalizing s u with
  | nil => exact ⟨rfl, h⟩
  | cons v visits ih =>
    obtain ⟨report, level⟩ := level_visit h b (whole v List.mem_cons_self)
    obtain ⟨reports, ended⟩ := ih level fun v member => whole v (List.mem_cons_of_mem _ member)
    exact ⟨congrArg₂ _ report reports, ended⟩

/-- For all batches that are settled one after another, and all calls for totals that follow them. -/
theorem ledgers_agree {campaigns : List Campaign} (valid : ∀ c ∈ campaigns, c.Valid) (s : Station Unit) (b : Backoff)
    {visits : List Visit} (whole : ∀ v ∈ visits, v.created.toMicros = v.created) (calls : List TotalsCall) :
    let memory := visitAll (Visit.overMemory b · ·) (s.over (.holding campaigns)) visits
    let tables := visitAll (Visit.overTables b · ·) (s.over (.holding campaigns)) visits
    let memory' := MemoryLedger.totals.callAll memory.1.store calls
    let tables' := SqlLedger.totals.callAll tables.1.store calls
    tables.2 = memory.2 ∧ tables.1.sink = memory.1.sink ∧ Concur memory.1.store tables.1.store ∧
      tables'.2 = memory'.2 ∧ Concur memory'.1 tables'.1 := by
  intro memory tables memory' tables'
  have start : Level (s.over (.holding campaigns)) (s.over (.holding campaigns)) :=
    ⟨rfl, Ledger.twins_start valid, rfl⟩
  obtain ⟨reports, same, twins, records⟩ := level_visits start b whole
  obtain ⟨replies, twins', records'⟩ := Ledger.twins_callAll twins records calls
  exact ⟨reports, congrArg Station.sink same, Ledger.twins_concur twins records, replies,
    Ledger.twins_concur twins' records'⟩

def stalls : List Campaign := [{ Campaign.launch 1 5 epoch with currentStock := 1 }, .launch 2 3 epoch]

def outings : List Visit :=
  [⟨epoch, epoch, mixed⟩, ⟨nextMidnight, nextMidnight, []⟩, ⟨epoch, nextMidnight, [taking 1 0]⟩]

theorem ledgers_agree_outings :
    let s : Station Unit := stand.over ()
    let memory := visitAll (Visit.overMemory twice · ·) (s.over (.holding stalls)) outings
    let tables := visitAll (Visit.overTables twice · ·) (s.over (.holding stalls)) outings
    let day : Window := ⟨epoch, nextMidnight, by decide⟩
    let calls := [.campaigns day, .write day none, .write day (some 2), .write day (some 1)]
    let memory' := MemoryLedger.totals.callAll memory.1.store calls
    let tables' := SqlLedger.totals.callAll tables.1.store calls
    (∀ c ∈ stalls, c.Valid) ∧ (∀ v ∈ outings, v.created.toMicros = v.created) ∧
      memory.2.map Report.outcomes =
        [[.deadLettered .unknownCampaign, .deadLettered .undecodable, .settled .success 1, .settled .fail 2], [],
          [.settled .fail 3]] ∧
      memory'.2 = [.campaigns (.ok [1]), .rows (.ok 1), .rows (.ok 0), .rows (.ok 1)] ∧
      tables.2 = memory.2 ∧ tables.1.sink = memory.1.sink ∧ Concur memory.1.store tables.1.store ∧
      tables'.2 = memory'.2 ∧ Concur memory'.1 tables'.1 := by
  have valid : ∀ c ∈ stalls, c.Valid := by
    intro c member
    have checks : ∀ c ∈ stalls,
        1 ≤ c.totalStock ∧ 0 ≤ c.currentStock ∧ c.currentStock ≤ c.totalStock ∧ c.status?.isSome := by
      decide
    obtain ⟨total, nonneg, within, status⟩ := checks c member
    exact ⟨total, nonneg, within, status⟩
  have whole : ∀ v ∈ outings, v.created.toMicros = v.created := by decide
  intro s memory tables day calls memory' tables'
  exact ⟨valid, whole, by decide +kernel, by decide +kernel, ledgers_agree valid s twice whole calls⟩

end CampaignSettlement.Settlement
