import Mathlib.Algebra.GroupWithZero.Nat
import CampaignSettlement.Proofs.Lists
import CampaignSettlement.Proofs.Settlement.Clearing
import CampaignSettlement.Proofs.Settlement.Conservation
import CampaignSettlement.Proofs.Settlement.Selling
import CampaignSettlement.Proofs.Settlement.Trading

/-!
The log of batches that take turns. It has what the batches have committed and nothing else, each record with the
time at which its batch was committed; when all batches have come to their ends no transaction is open, and what
they have committed is what their reports call settled.
-/
namespace CampaignSettlement.Settlement

open Calendar (Instant)
open Ledger (Arming CallKind Entry Fault Faulty Holdings Injection Launch MemoryLedger Record Result)
open Wire (Message)

variable {launches : List Launch} {calls : Calls} {t : MemoryTurns}

def committedBy (calls : Calls) (t : MemoryTurns) : List Entry :=
  (calls.zip t.courses).flatMap fun x => (deskAfter x.1.2 x.2.asked).committed

/-- What the log has, and who has the transactions that are open. -/
structure Committing (launches : List Launch) (calls : Calls) (t : MemoryTurns) : Prop where
  selling : Selling launches calls t
  length : t.courses.length = calls.length
  log : ∃ es : List Entry, es.Perm (committedBy calls t) ∧ List.Forall₂ Records es t.state.holdings.records
  owned : ∀ work w, t.state.holdings.works.get? work = some w → ∃ i, (desks calls t i).work? = some work

theorem committing_start (distinct : (launches.map Launch.id).Nodup) (stocked : ∀ x ∈ launches, 0 ≤ x.stock)
    (calls : Calls) (s : Station (Faulty MemoryLedger)) (injections : List (Injection CallKind Fault)) :
    Committing launches calls
      (.start (s.opening launches injections) (calls.map fun call => processBatch call.1 call.2)) := by
  obtain ⟨records, works, -⟩ := MemoryLedger.opening_rows launches {}
  constructor
  · exact selling_start distinct stocked calls s injections
  · simp [Turns.start]
  · refine ⟨[], ?_, ?_⟩
    · have nothing : committedBy calls
          (.start (s.opening launches injections) (calls.map fun call => processBatch call.1 call.2)) = [] := by
        refine List.flatMap_eq_nil_iff.mpr ?_
        rintro ⟨call, c⟩ member
        have started := (List.of_mem_zip member).2
        simp only [Turns.start, List.map_map, List.mem_map] at started
        obtain ⟨other, -, rfl⟩ := started
        rfl
      rw [nothing]
    · have empty : (s.opening launches injections).holdings.records = [] := records
      exact empty ▸ .nil
  · intro work w opened
    have empty : (s.opening launches injections).holdings.works = [] := works
    rw [show (Turns.start (s.opening launches injections) _).state.holdings.works = [] from empty] at opened
    cases opened

theorem committing_turn (h : Committing launches calls t) (i : Nat) :
    Committing launches calls (t.turn (Station.answer Faulty.settleMemory) i) := by
  rcases t.turn_cases (Station.answer Faulty.settleMemory) i with same | ⟨c, q, next, at_course, asks, turned⟩
  · rwa [same]
  · obtain ⟨call, at_call, -, desk, allowed⟩ := selling_due h.selling at_course asks
    have selling := selling_turn h.selling i
    rw [turned] at selling ⊢
    have act := h.selling.accord.act allowed (answer_answered t.state q)
    constructor
    · exact selling
    · exact (List.length_set ..).trans h.length
    · obtain ⟨es, perm, log⟩ := h.log
      obtain ⟨new, rs, grown, committed, written, -⟩ := act_log (h.selling.accord.held i) act
      refine ⟨es ++ new, ?_, grown ▸ List.rel_append log written⟩
      have at_both : (calls.zip t.courses)[i]? = some (call, c) := by simp [List.getElem?_zip_eq_some, at_call, at_course]
      let answered : Course Report := ⟨c.asked ++ [⟨q, (t.state.answer Faulty.settleMemory q).2⟩],
        next (t.state.answer Faulty.settleMemory q).2⟩
      have wrote : (deskAfter call.2 answered.asked).committed = (deskAfter call.2 c.asked).committed ++ new := by
        rw [deskAfter_snoc, ← desk]
        exact committed
      have after := flatMap_set_perm (f := fun x : (Backoff × List Message) × Course Report =>
        (deskAfter x.1.2 x.2.asked).committed) (y := (call, answered)) at_both wrote
      -- the entries of a batch that commits join in its place, not at the end
      rw [← zip_set at_call] at after
      exact (perm.append_right new).trans after.symm
    · intro work w opened
      rw [desks_set at_call at_course, deskAfter_snoc, ← desk]
      rcases act_owned act opened with own | ⟨other, v, before⟩
      · exact ⟨i, by rw [Function.update_self]; exact own⟩
      · obtain ⟨j, at_desk⟩ := h.owned work v before
        have apart : j ≠ i := by
          rintro rfl
          exact other at_desk
        exact ⟨j, by rw [Function.update_of_ne apart]; exact at_desk⟩

theorem committing_beat (h : Committing launches calls t) (move : Beat (Station.Change Arming)) :
    Committing launches calls (t.beat (Station.answer Faulty.settleMemory) (Station.change Faulty.arm) move) := by
  cases move with
  | turn i => exact committing_turn h i
  | change e =>
    have same := change_holdings t.state e
    have selling := selling_beat h.selling (.change e)
    exact ⟨selling, h.length, same ▸ h.log, same ▸ h.owned⟩

theorem committing_run (h : Committing launches calls t) (schedule : List (Beat (Station.Change Arming))) :
    Committing launches calls (t.run (Station.answer Faulty.settleMemory) (Station.change Faulty.arm) schedule) := by
  induction schedule generalizing t with
  | nil => exact h
  | cons move schedule ih => exact ih (committing_beat h move)

/-- All times that a station tells or has told satisfy `P`, and no daily rows have been written. -/
structure Stamped (P : Instant → Prop) (s : Station (Faulty MemoryLedger)) : Prop where
  now : P s.now
  clock : ∀ time ∈ s.store.inner.clock, P time
  records : ∀ r ∈ s.holdings.records, P r.createdAt
  unsummed : s.store.inner.stats = []

def Beat.Sets (P : Instant → Prop) : Beat (Station.Change Arming) → Prop
  | .change (.time time) | .change (.store (.clock (some time))) => P time
  | _ => True

instance (P : Instant → Prop) [DecidablePred P] : DecidablePred (Beat.Sets P)
  | .change (.time time) | .change (.store (.clock (some time))) => inferInstanceAs (Decidable (P time))
  | .turn _ | .change (.sink _) | .change (.acks ..) | .change (.store (.injections _))
  | .change (.store (.mishaps _)) | .change (.store (.clock none)) => .isTrue trivial

variable {P : Instant → Prop} {s : Station (Faulty MemoryLedger)}

/-- The log grows by records of the time that is pinned, or else of the present one. -/
theorem settleMemory_records (now : Instant) (f : Faulty MemoryLedger) (c : Ledger.StoreCall) :
    ∃ rows : List (Int × Entry), (Faulty.settleMemory now f c).1.holdings.records =
      f.holdings.records ++ rows.map fun row => .ofEntry row.1 row.2 (f.inner.clock.getD now) := by
  have effect := Faulty.settleMemory_effect now f c
  have commits (work : Nat) (w : Ledger.Work) (opened : f.holdings.works.get? work = some w)
      (done : (Faulty.settleMemory now f (.commit work)).2 = .ok ()) :
      (Faulty.settleMemory now f (.commit work)).1.holdings.records =
        f.holdings.records ++ w.written.map fun row => .ofEntry row.1 row.2 (f.inner.clock.getD now) := by
    rw [Faulty.settleMemory_committed now f opened done]
    rfl
  generalize answered : (Faulty.settleMemory now f c).2 = r at effect
  generalize after : (Faulty.settleMemory now f c).1.holdings = k at effect ⊢
  cases effect with
  | committed created opened => exact ⟨_, after ▸ commits _ _ opened answered⟩
  | _ => exact ⟨[], (List.append_nil _).symm⟩

theorem stamped_answer (h : Stamped P s) (q : Ask) : Stamped P (s.answer Faulty.settleMemory q).1 := by
  obtain ⟨now, clock⟩ := answer_time s q
  have present : P (s.store.inner.clock.getD s.now) := by
    cases pinned : s.store.inner.clock with
    | none => exact h.now
    | some time => exact h.clock time pinned
  constructor
  · rw [now]
    exact h.now
  · rw [clock]
    exact h.clock
  · cases q with
    | store c =>
      obtain ⟨rows, grown⟩ := settleMemory_records s.now s.store c
      intro r member
      change r ∈ (Faulty.settleMemory s.now s.store c).1.holdings.records at member
      rw [grown] at member
      rcases List.mem_append.mp member with earlier | last
      · exact h.records r earlier
      · obtain ⟨row, -, rfl⟩ := List.mem_map.mp last
        exact present
    | _ =>
      rw [Station.holdings, answer_store _ s (by simp)]
      exact h.records
  · cases q with
    | store c => exact (Faulty.settleMemory_apart s.now s.store c).1.trans h.unsummed
    | _ =>
      rw [answer_store _ s (by simp)]
      exact h.unsummed

theorem stamped_beat (h : Stamped P t.state) {move : Beat (Station.Change Arming)} (sets : move.Sets P) :
    Stamped P (t.beat (Station.answer Faulty.settleMemory) (Station.change Faulty.arm) move).state := by
  cases move with
  | turn i =>
    change Stamped P (t.turn (Station.answer Faulty.settleMemory) i).state
    rcases t.turn_cases (Station.answer Faulty.settleMemory) i with same | ⟨c, q, next, -, -, turned⟩
    · rwa [same]
    · rw [turned]
      exact stamped_answer h q
  | change e =>
    cases e with
    | time now => exact ⟨sets, h.clock, h.records, h.unsummed⟩
    | sink failing => exact ⟨h.now, h.clock, h.records, h.unsummed⟩
    | acks failing breaking => exact ⟨h.now, h.clock, h.records, h.unsummed⟩
    | store a =>
      cases a with
      | injections js => exact ⟨h.now, h.clock, h.records, h.unsummed⟩
      | mishaps m => exact ⟨h.now, h.clock, h.records, h.unsummed⟩
      | clock time =>
        refine ⟨h.now, ?_, h.records, h.unsummed⟩
        intro pinned set
        obtain rfl : time = some pinned := set
        exact sets

theorem stamped_run (h : Stamped P t.state) {schedule : List (Beat (Station.Change Arming))}
    (sets : ∀ move ∈ schedule, move.Sets P) :
    Stamped P (t.run (Station.answer Faulty.settleMemory) (Station.change Faulty.arm) schedule).state := by
  induction schedule generalizing t with
  | nil => exact h
  | cons move schedule ih =>
    exact ih (stamped_beat h (sets move List.mem_cons_self)) fun later member => sets later (List.mem_cons_of_mem _ member)

theorem opening_apart (launches : List Launch) (l : MemoryLedger) :
    let opened := launches.foldl (fun l c => l.addCampaign c.id c.stock c.time) l
    opened.stats = l.stats ∧ opened.clock = l.clock := by
  induction launches generalizing l with
  | nil => exact ⟨rfl, rfl⟩
  | cons x launches ih => exact ih (l.addCampaign x.id x.stock x.time)

theorem stamped_opening (now : P s.now) (launches : List Launch) (injections : List (Injection CallKind Fault)) :
    Stamped P (s.opening launches injections) := by
  obtain ⟨unsummed, clock⟩ := opening_apart launches {}
  obtain ⟨records, -, -⟩ := MemoryLedger.opening_rows launches {}
  constructor
  · exact now
  · intro time pinned
    rw [show (s.opening launches injections).store.inner.clock = none from clock] at pinned
    cases pinned
  · intro r member
    rw [show (s.opening launches injections).holdings.records = [] from records] at member
    cases member
  · exact unsummed

def Course.result? {α : Type} (c : Course α) : Option α :=
  match c.rest with
  | .done a => some a
  | .ask .. => none

theorem result_done {α : Type} {c : Course α} {a : α} (ended : c.result? = some a) : c.rest = .done a := by
  unfold Course.result? at ended
  split at ended
  · next b done => rw [done, Option.some.inj ended]
  · cases ended

theorem results_done {α : Type} {cs : List (Course α)} {as : List α} (ended : cs.map Course.result? = as.map some) :
    List.Forall₂ (fun c a => c.rest = .done a) cs as := by
  have same : List.Forall₂ (· = ·) (cs.map Course.result?) (as.map some) := by
    rw [List.forall₂_eq_eq_eq]
    exact ended
  rw [List.forall₂_map_left_iff, List.forall₂_map_right_iff] at same
  exact same.imp fun _ _ ended => result_done ended

def Finished (t : MemoryTurns) (reports : List Report) : Prop := t.courses.map Course.result? = reports.map some

instance (t : MemoryTurns) (reports : List Report) : Decidable (Finished t reports) :=
  inferInstanceAs (Decidable (_ = _))

def Outcome.isSettled (r : Result) : Outcome → Bool
  | .settled r' _ => r' == r
  | .deadLettered _ => false

def settledFor (campaign : Int) (r : Result) (ms : List Message) (os : List Outcome) : Nat :=
  (ms.zip os).countP fun x => x.1.decode.toOption.any (·.campaign == campaign) && x.2.isSettled r

def reportedFor (campaign : Int) (r : Result) (calls : Calls) (reports : List Report) : Nat :=
  ((calls.zip reports).map fun x => settledFor campaign r x.1.2 x.2.outcomes).sum

def madeFor (campaign : Int) (r : Result) (e : Entry) : Bool := e.campaign == campaign && e.result == r

theorem ends_entries {ms : List Message} {v : View} {os : List Outcome} (ends : Ends ms v os) :
    List.Forall₂ WritesDown ((ms.zip os).filterMap fun x => settledOf x.1 x.2) v.desk.committed := by
  cases ends with
  | committed settles => exact settles_entries settles
  | givenUp reason failed fits =>
    rw [givenUp_settled fits]
    exact .nil

theorem settledFor_entries {ms : List Message} {v : View} {os : List Outcome} (ends : Ends ms v os) (campaign : Int)
    (r : Result) : settledFor campaign r ms os = v.desk.committed.countP (madeFor campaign r) := by
  have written := countP_forall₂ (p := fun x => x.1.decode.toOption.any (·.campaign == campaign) && x.2.1 == r)
    (q := madeFor campaign r) (by
      intro x e writes
      simp [madeFor, writes.event, writes.result, Except.toOption]) (ends_entries ends)
  rw [← written, List.countP_filterMap, settledFor]
  refine List.countP_congr ?_
  rintro ⟨m, o⟩ _
  cases o <;> simp [settledOf, Outcome.isSettled]

theorem committing_courses (h : Committing launches calls t) :
    List.Forall₂ (fun call c => c.Of (processBatch call.1 call.2)) calls t.courses := by
  refine List.forall₂_iff_get.mpr ⟨h.length.symm, ?_⟩
  intro i within within'
  obtain ⟨call, at_call, course⟩ := h.selling.courses i (t.courses.get ⟨i, within'⟩) (List.getElem?_eq_getElem within')
  obtain rfl : calls.get ⟨i, within⟩ = call := Option.some.inj ((List.getElem?_eq_getElem within).symm.trans at_call)
  exact course

theorem finished_ends {b : Backoff} {ms : List Message} {c : Course Report} {report : Report}
    (course : c.Of (processBatch b ms)) (done : c.rest = .done report) :
    Ends ms (Desk.watch.track ⟨.idle (ms.filterMap ticketOf), []⟩ c.asked) report.outcomes := by
  rw [Course.Of, done] at course
  exact Program.keeps_leads (processBatch_keeps b ms) course

theorem finished_entries (h : Committing launches calls t) {reports : List Report} (finished : Finished t reports)
    (campaign : Int) (r : Result) :
    reportedFor campaign r calls reports = (committedBy calls t).countP (madeFor campaign r) := by
  have courses := committing_courses h
  have ended := results_done finished
  rw [committedBy, List.countP_flatMap]
  clear h finished
  generalize t.courses = cs at courses ended
  induction courses generalizing reports with
  | nil => rfl
  | @cons call c calls cs course _ ih =>
    cases ended with
    | cons done rest =>
      simp only [reportedFor, List.zip_cons_cons, List.map_cons, List.sum_cons] at ih ⊢
      rw [ih rest, settledFor_entries (finished_ends course done)]
      rfl

theorem finished_closed (h : Committing launches calls t) {reports : List Report} (finished : Finished t reports) :
    t.state.holdings.works = [] := by
  have closed (i : Nat) : (desks calls t i).work? = none := by
    unfold desks
    split
    · next call c at_call at_course =>
      obtain ⟨call', at_call', course⟩ := h.selling.courses i c at_course
      obtain rfl := Option.some.inj (at_call.symm.trans at_call')
      have member := List.mem_map_of_mem (f := Course.result?) (List.mem_of_getElem? at_course)
      rw [finished] at member
      obtain ⟨report, -, ended⟩ := List.mem_map.mp member
      exact ends_closed (finished_ends course (result_done ended.symm))
    · rfl
  cases works : t.state.holdings.works with
  | nil => rfl
  | cons row rows =>
    obtain ⟨i, own⟩ := h.owned row.1 row.2 (by rw [works]; simp [Ledger.Table.get?])
    rw [closed i] at own
    cases own

theorem finished_records (h : Committing launches calls t) {reports : List Report} (finished : Finished t reports)
    (campaign : Int) (r : Result) :
    (t.state.holdings.records.filter (·.campaign == campaign)).countP (·.status == r.name) =
      reportedFor campaign r calls reports := by
  obtain ⟨es, perm, log⟩ := h.log
  rw [finished_entries h finished, ← perm.countP_eq, List.countP_filter]
  refine (countP_forall₂ ?_ log).symm
  intro e rec kept
  rw [kept]
  cases result : e.result <;> cases r <;> simp [madeFor, Record.ofEntry, Result.name, result]

theorem committing_unrecorded (h : Committing launches calls t) {campaign : Int}
    (none_settled : ∀ r : Result, (t.state.holdings.records.filter (·.campaign == campaign)).countP (·.status == r.name) = 0) :
    t.state.holdings.records.filter (·.campaign == campaign) = [] := by
  obtain ⟨es, -, log⟩ := h.log
  refine List.eq_nil_iff_forall_not_mem.mpr ?_
  intro rec member
  obtain ⟨there, -⟩ := List.mem_filter.mp member
  obtain ⟨e, -, kept⟩ := recorded_entry log there
  have status : rec.status = e.result.name := by
    rw [kept]
    rfl
  exact List.countP_eq_zero.mp (none_settled e.result) rec member (by simp [status])

end CampaignSettlement.Settlement
