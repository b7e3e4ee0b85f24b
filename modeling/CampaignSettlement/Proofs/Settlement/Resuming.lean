import CampaignSettlement.Ledger.Sql
import CampaignSettlement.Proofs.Settlement.Numbering

/-!
Workers that are started again. Over one lifetime of the workers the records that are added to the log bear numbers of
their own, without a gap if all that was drawn was committed. A sequence that goes on after the greatest number in the
log never meets a number again, so the numbers stay apart however often the workers are started.
-/
namespace CampaignSettlement.Settlement

open Ledger (Arming Entry Faulty Launch MemoryLedger Record Tables)

inductive Upset
  | arm (a : Arming)
  | launch (x : Launch)
deriving DecidableEq, Repr

def upset : Upset → Faulty MemoryLedger → Faulty MemoryLedger
  | .arm a, f => Faulty.arm a f
  | .launch x, f => { f with inner := f.inner.addCampaign x.id x.stock x.time }

theorem upset_keeps (e : Station.Change Upset) (s : MemoryStation) :
    (s.change upset e).holdings.works = s.holdings.works ∧
      (s.change upset e).holdings.lastWork = s.holdings.lastWork ∧
      (s.change upset e).holdings.records = s.holdings.records ∧ (s.change upset e).sequence = s.sequence := by
  cases e with
  | store a =>
    cases a with
    | arm a => cases a <;> exact ⟨rfl, rfl, rfl, rfl⟩
    | launch x => exact ⟨rfl, rfl, rfl, rfl⟩
  | _ => exact ⟨rfl, rfl, rfl, rfl⟩

theorem upset_allowed {E : Shift} {e : Station.Change Upset} (shifts : ∀ s, E s (s.change upset e)) :
    Allowed E upset e :=
  fun s => ⟨(upset_keeps e s).1, (upset_keeps e s).2.1, shifts s⟩

theorem launch_tells {known : Int → Prop} {s : MemoryStation} (tells : Tells known s) {e : Station.Change Upset}
    (only : ∀ x, e = .store (.launch x) → known x.id) : Tells known (s.change upset e) := by
  intro id
  cases e with
  | store a =>
    cases a with
    | arm a => cases a <;> exact tells id
    | launch x =>
      change ((s.holdings.campaigns.put x.id _).get? id).isSome ↔ _
      rw [Ledger.Table.get?_put]
      split
      · next same => exact ⟨fun _ => same ▸ only x rfl, fun _ => rfl⟩
      · exact tells id
  | _ => exact tells id

structure Lifetime where
  backoff : Backoff
  station : MemoryStation
  batchSize : Nat
  capacity : Nat
  flow : Bool
  schedule : List (Move Upset)

namespace Lifetime

def stop (l : Lifetime) : MemoryCrew :=
  (Crew.start l.station l.batchSize l.capacity l.flow).run Faulty.settleMemory upset l.backoff l.schedule

def old (l : Lifetime) : List Record := l.station.store.inner.records

def log (l : Lifetime) : List Record := l.stop.station.store.inner.records

def added (l : Lifetime) : List Record := l.log.drop l.old.length

def Known (l : Lifetime) (id : Int) : Prop := (l.station.store.inner.campaign? id).isSome

instance (l : Lifetime) : DecidablePred l.Known := fun _ => inferInstanceAs (Decidable (_ = true))

def SameCampaigns (l : Lifetime) : Prop := ∀ x, .change (.store (.launch x)) ∈ l.schedule → l.Known x.id

/-- Nobody is at work, and every batch with a message that can be read was committed. -/
def Committed (l : Lifetime) : Prop :=
  ∀ y, (l.stop.worker y).phase = .idle ∧ ∀ r ∈ (l.stop.worker y).past, r.Commits

def entered (l : Lifetime) (y : Int) : List Int :=
  (entriesOf (l.stop.worker y).past (l.stop.worker y).now).map Entry.sequence

/-- The records that were added bear `numbers`, and for no message more than one was drawn. -/
structure Numbers (l : Lifetime) (numbers : List Int) : Prop where
  once : ∀ y, ∀ r ∈ (l.stop.worker y).rounds, (drawsIn r.asked).Nodup
  log : l.log = l.old ++ l.added
  sequences : l.added.map Record.sequence = numbers.map some
  distinct : numbers.Nodup
  between : ∀ n ∈ numbers, l.station.sequence.current < n ∧ n ≤ l.stop.station.sequence.current

/-- The `numbers` go on from the beginning of the sequence without a gap, and there is one for each message that was
settled. -/
structure Dense (l : Lifetime) (numbers : List Int) : Prop where
  consecutive : Consecutive l.station.sequence.current numbers
  current : l.stop.station.sequence.current = l.station.sequence.current + numbers.length
  settled : ∀ y, List.Forall₂ RecordFor (addressed l.Known ((l.stop.worker y).past.map Round.batch).flatten)
    (recordsAt y l.added)

variable {l : Lifetime} (closed : l.station.store.inner.works = [])

include closed

theorem kept {E : Shift} {P : Knowledge} (upkeep : Upkeep l.backoff Placed E P)
    (known : P (fun _ => []) (fun _ => .none) l.station)
    (shifts : ∀ e, .change e ∈ l.schedule → ∀ s, E s (s.change upset e)) :
    Kept l.backoff (max l.batchSize 1) (sentTo l.schedule) P l.stop := by
  have orderly : l.station.holdings.Orderly := by
    have empty : l.station.holdings.works = [] := closed
    exact ⟨by rw [empty]; exact .nil, by rw [empty]; exact List.forall_mem_nil _⟩
  exact kept_after upkeep orderly known l.batchSize l.capacity l.flow l.schedule (sent_placed l.schedule)
    fun e member => upset_allowed (shifts e member)

theorem kept_signed : Kept l.backoff (max l.batchSize 1) (sentTo l.schedule) AllSigned l.stop :=
  kept closed (signed_upkeep l.backoff Placed) ⟨trivial, fun _ => ⟨List.forall_mem_nil _, List.forall_mem_nil _⟩⟩
    fun _ _ _ => trivial

theorem kept_numbered :
    Kept l.backoff (max l.batchSize 1) (sentTo l.schedule) (Numbered l.station.sequence.last) l.stop :=
  kept closed (numbered_upkeep l.backoff Placed l.station.sequence.last) (givenOut_start _)
    fun e _ s => (upset_keeps e s).2.2.2

theorem kept_logged :
    Kept l.backoff (max l.batchSize 1) (sentTo l.schedule) (Logged l.old) l.stop :=
  kept closed (logged_upkeep l.backoff l.old) ⟨[], (List.append_nil _).symm, fun _ => .nil, List.forall_mem_nil _⟩
    fun e _ s => (upset_keeps e s).2.2.1

theorem kept_marked (same : l.SameCampaigns) :
    Kept l.backoff (max l.batchSize 1) (sentTo l.schedule) (Marked l.Known) l.stop :=
  kept closed (marked_upkeep l.backoff Placed l.Known)
    ⟨fun _ => Iff.rfl, fun _ => ⟨agrees_start [], List.forall_mem_nil _⟩⟩ fun _ member _ tells =>
      launch_tells tells fun x launched => same x (launched ▸ member)

theorem stop_signed (y : Int) : ∀ r ∈ (l.stop.worker y).past ++ [(l.stop.worker y).now], r.desk.Signed := by
  obtain ⟨now, past⟩ := (kept_signed closed).known.2 y
  intro r member
  rcases List.mem_append.mp member with earlier | last
  · exact past r earlier
  · exact List.mem_singleton.mp last ▸ now

theorem added_logged :
    l.log = l.old ++ l.added ∧
      LoggedBy (fun y => (l.stop.worker y).past) (fun y => (l.stop.worker y).now) l.added := by
  obtain ⟨new, log, logged⟩ := (kept_logged closed).known
  obtain rfl : l.added = new := by rw [added, show l.log = l.old ++ new from log, List.drop_left]
  exact ⟨log, logged⟩

theorem entered_drawn {y n : Int} (member : n ∈ l.entered y) :
    l.station.sequence.current < n ∧ n ≤ l.stop.station.sequence.current :=
  ((kept_numbered closed).known.drawn n).mp ⟨y, (entries_numbers (stop_signed closed y)).subset member⟩

theorem committed_settled (committed : l.Committed) (y : Int) : ∀ r ∈ (l.stop.worker y).past, r.Settled := by
  intro r member
  obtain ⟨goesOn, own⟩ := ((kept_signed closed).manned.lined y).past r member
  exact round_settled own ((committed y).2 r member)

theorem drawn_entered (same : l.SameCampaigns) (committed : l.Committed) {n : Int}
    (inside : l.station.sequence.current < n ∧ n ≤ l.stop.station.sequence.current) : ∃ y, n ∈ l.entered y := by
  obtain ⟨y, drawn⟩ := ((kept_numbered closed).known.drawn n).mpr inside
  have signed := ((kept_signed closed).known.2 y).2
  have agrees := ((kept_marked closed same).known.2 y).2
  have ended := ((kept_signed closed).manned.lined y).past
  have all := idle_numbers (committed y).1 ended (committed_settled closed committed y) signed agrees
  exact ⟨y, by rwa [entered, ← all]⟩

theorem settled_recorded (same : l.SameCampaigns) (committed : l.Committed) (y : Int) :
    List.Forall₂ RecordFor (addressed l.Known ((l.stop.worker y).past.map Round.batch).flatten)
      (recordsAt y l.added) := by
  have kept := (added_logged closed).2.own y
  have now : (l.stop.worker y).now = .none := by rw [Worker.now, (committed y).1]
  rw [now, now_entries] at kept
  have agrees := ((kept_marked closed same).known.2 y).2
  have ended := ((kept_signed closed).manned.lined y).past
  have written := past_addressed ended (committed_settled closed committed y) agrees
  exact records_recordFor written kept

theorem numbered : ∃ numbers, l.Numbers numbers ∧ (l.SameCampaigns → l.Committed → l.Dense numbers) := by
  obtain ⟨log, logged⟩ := added_logged closed
  have given := (kept_numbered closed).known
  obtain ⟨numbers, sequences, distinct, exact⟩ := logged_numbers (stop_signed closed) given logged
  have between : ∀ n ∈ numbers, l.station.sequence.current < n ∧ n ≤ l.stop.station.sequence.current := by
    intro n member
    obtain ⟨y, entered⟩ := (exact n).mp member
    exact entered_drawn closed entered
  have once : ∀ y, ∀ r ∈ (l.stop.worker y).rounds, (drawsIn r.asked).Nodup := by
    intro y r member
    obtain ⟨-, rest, course⟩ := lined_courses ((kept_signed closed).manned.lined y) r member
    exact round_draws_once course
  refine ⟨numbers, ⟨once, log, sequences, distinct, between⟩, ?_⟩
  intro same committed
  have all : ∀ n, n ∈ numbers ↔ l.station.sequence.current < n ∧ n ≤ l.stop.station.sequence.current := by
    intro n
    constructor
    · exact between n
    · intro inside
      exact (exact n).mpr (drawn_entered closed same committed inside)
  obtain ⟨consecutive, current⟩ := consecutive_of_exact given.ahead distinct all
  exact ⟨consecutive, current, settled_recorded closed same committed⟩

end Lifetime

section Restarts

/-- The log grew from `old` to `log` by records with numbers of their own, greater than all that were there. -/
def Outgrows (old log : List Record) : Prop :=
  ∃ (new : List Record) (numbers : List Int), log = old ++ new ∧ new.map Record.sequence = numbers.map some ∧
    numbers.Nodup ∧ ∀ n ∈ numbers, ∀ r ∈ old, ∀ m ∈ r.sequence, m < n

theorem outgrows_refl (old : List Record) : Outgrows old old :=
  ⟨[], [], (List.append_nil old).symm, rfl, .nil, fun n member => by cases member⟩

theorem outgrows_trans {old between log : List Record} (first : Outgrows old between) (second : Outgrows between log) :
    Outgrows old log := by
  obtain ⟨new, numbers, rfl, sequences, distinct, above⟩ := first
  obtain ⟨later, numbers', rfl, sequences', distinct', above'⟩ := second
  refine ⟨new ++ later, numbers ++ numbers', List.append_assoc .., ?_, ?_, ?_⟩
  · rw [List.map_append, List.map_append, sequences, sequences']
  · -- what is added later is greater than all that was there, the first additions among it
    refine List.nodup_append.mpr ⟨distinct, distinct', ?_⟩
    intro n member m member' same
    have at_record : some n ∈ new.map Record.sequence := sequences ▸ List.mem_map_of_mem member
    obtain ⟨r, at_new, sequence⟩ := List.mem_map.mp at_record
    have less := above' m member' r (List.mem_append_right _ at_new) n sequence
    omega
  · intro n member r at_old m sequence
    rcases List.mem_append.mp member with early | late
    · exact above n early r at_old m sequence
    · exact above' n late r (List.mem_append_left _ at_old) m sequence

def tablesOf (l : MemoryLedger) : Tables := ⟨l.campaigns, l.records, l.stats⟩

def resumed (l : MemoryLedger) : Sequence := .startingAfter ((tablesOf l).maxSequence.getD 0)

theorem resumed_ahead (l : MemoryLedger) : ∀ r ∈ l.records, ∀ m ∈ r.sequence, m ≤ (resumed l).last := by
  intro r member m sequence
  have present : m ∈ l.records.filterMap Record.sequence := List.mem_filterMap.mpr ⟨r, member, sequence⟩
  have last : (resumed l).last = max ((l.records.filterMap Record.sequence).max?.getD 0) 0 := rfl
  cases greatest : (l.records.filterMap Record.sequence).max? with
  | none =>
    rw [List.max?_eq_none_iff] at greatest
    simp [greatest] at present
  | some n =>
    have below := (List.max?_eq_some_iff.mp greatest).2 m present
    rw [last, greatest]
    exact Int.le_trans below (Int.le_max_left _ _)

def Lifetime.over (l : Lifetime) (f : Faulty MemoryLedger) : Lifetime :=
  { l with station := { l.station with store := f, sequence := resumed f.inner } }

/-- Workers have been started again over the ledger, any number of times, each time with no transaction open. -/
inductive Restarts (f : Faulty MemoryLedger) : Faulty MemoryLedger → Prop
  | none : Restarts f f
  | more (l : Lifetime) {g : Faulty MemoryLedger} (earlier : Restarts f g) (closed : g.inner.works = []) :
      Restarts f (l.over g).stop.station.store

theorem restarted_outgrows (l : Lifetime) {f : Faulty MemoryLedger} (closed : f.inner.works = []) :
    Outgrows f.inner.records (l.over f).log := by
  obtain ⟨numbers, found, -⟩ := Lifetime.numbered (l := l.over f) closed
  refine ⟨(l.over f).added, numbers, found.log, found.sequences, found.distinct, ?_⟩
  intro n member r at_log m sequence
  have above : (resumed f.inner).last < n := (found.between n member).1
  exact Int.lt_of_le_of_lt (resumed_ahead f.inner r at_log m sequence) above

theorem restarts_outgrow {f g : Faulty MemoryLedger} (h : Restarts f g) : Outgrows f.inner.records g.inner.records := by
  induction h with
  | none => exact outgrows_refl _
  | more l earlier closed ih => exact outgrows_trans ih (restarted_outgrows l closed)

end Restarts

/-- Whatever the schedule and the failures are, and however often the workers are started again. -/
theorem sequences_numbered (l : Lifetime) (closed : l.station.store.inner.works = []) :
    (∃ numbers, l.Numbers numbers ∧ (l.SameCampaigns → l.Committed → l.Dense numbers)) ∧
      ∀ f, Restarts l.stop.station.store f → Outgrows l.log f.inner.records := by
  constructor
  · exact l.numbered closed
  · intro f restarts
    exact restarts_outgrow restarts

def pastLog : List Record :=
  [none, some (-5), some 3].map fun sequence => ⟨1, 1, 7, "SUCCESS", some 0, some 0, none, sequence, epoch⟩

def resumption : Lifetime where
  backoff := twice
  station := { stand with
    store := ⟨{ MemoryLedger.opening [⟨1, 2, epoch⟩] with records := pastLog }, []⟩
    sequence := ⟨3⟩ }
  batchSize := 2
  capacity := 8
  flow := true
  schedule :=
    [.change (.store (.arm (.mishaps { appends := .times 1 }))), .dispatch (taking 0 0), .dispatch (taking 0 1),
      .dispatch (taking 1 0), .receive 0, .gather 0, .gather 0, .receive 1, .gather 1] ++
      (List.replicate 40 [.turn 0, .turn 1]).flatten

theorem sequences_numbered_resumption :
    let log := resumption.log
    let again := resumption.over resumption.stop.station.store
    resumption.station.store.inner.works = [] ∧ resumption.SameCampaigns ∧ resumption.Committed ∧
      resumption.stop.station.store.inner.works = [] ∧
      log.map Record.sequence = [none, some (-5), some 3, some 5, some 4, some 6] ∧
      again.log.map Record.sequence = [none, some (-5), some 3, some 5, some 4, some 6, some 8, some 7, some 9] ∧
      (∃ numbers, resumption.Numbers numbers ∧ resumption.Dense numbers) ∧ Outgrows log again.log := by
  have same : resumption.SameCampaigns := by
    intro x member
    simp [resumption] at member
  have rows : ∀ row ∈ resumption.stop.workers, row.2.phase.batch? = none ∧
      ∀ r ∈ row.2.past, 0 < (Tally.watch.track {} r.asked).commits := by decide +kernel
  have committed : resumption.Committed := by
    intro y
    rw [Crew.worker]
    cases own : resumption.stop.workers.get? y with
    | none => exact ⟨rfl, List.forall_mem_nil _⟩
    | some w =>
      obtain ⟨idle, settled⟩ := rows _ (Ledger.Table.mem_of_get? own)
      refine ⟨?_, fun r member _ => settled r member⟩
      cases phase : w.phase with
      | idle => exact phase
      | gathering batch | busy batch course => rw [phase] at idle; cases idle
  have stopped : resumption.stop.station.store.inner.works = [] := by decide +kernel
  obtain ⟨⟨numbers, numbered, dense⟩, restarts⟩ := sequences_numbered resumption rfl
  exact ⟨rfl, same, committed, stopped, by decide +kernel, by decide +kernel, ⟨numbers, numbered, dense same committed⟩,
    restarts _ (.more resumption .none stopped)⟩

end CampaignSettlement.Settlement
