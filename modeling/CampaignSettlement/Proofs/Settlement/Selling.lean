import CampaignSettlement.Proofs.Settlement.Accord
import CampaignSettlement.Proofs.Settlement.Keeping
import CampaignSettlement.Settlement.Crew

/-!
Batches that are settled at the same time never sell a unit twice. Any number of batches take turns over
one ledger in memory, a question at a time, while failures are armed and the surroundings change between
the turns; the units that left the stock of a campaign are always those of its records and of the
transactions that are open. Batches of one worker, settled one after the other, are a schedule among these.
-/
namespace CampaignSettlement.Settlement

open Calendar (Instant)
open Ledger (Arming CallKind Fault Faulty Holdings Injection Launch MemoryLedger)
open Wire (Message)

theorem deskAfter_allows {b : Backoff} {ms : List Message} {c : Course Report} (course : c.Of (processBatch b ms))
    {q : Ask} {next : q.Reply → Program Report} (asks : c.rest = .ask q next) : (deskAfter ms c.asked).allows q := by
  have keeps := Program.keeps_leads (processBatch_keeps b ms) course
  rw [asks] at keeps
  exact keeps.1.1

abbrev Calls := List (Backoff × List Message)

abbrev MemoryTurns := Turns (Station (Faulty MemoryLedger)) Report

variable {calls : Calls}

def desks (calls : Calls) (t : MemoryTurns) (i : Nat) : Desk :=
  match calls[i]?, t.courses[i]? with
  | some call, some c => deskAfter call.2 c.asked
  | _, _ => .idle []

/-- The courses are those of the batches, their desks agree with the ledger, and all units are there. -/
structure Selling (launches : List Launch) (calls : Calls) (t : MemoryTurns) : Prop where
  courses : ∀ (i : Nat) (c : Course Report), t.courses[i]? = some c →
    ∃ call, calls[i]? = some call ∧ c.Of (processBatch call.1 call.2)
  accord : Accord (desks calls t) t.state.holdings
  balanced : ∀ x ∈ launches, t.state.holdings.Balanced x.id x.stock

theorem desks_start (calls : Calls) (s : Station (Faulty MemoryLedger)) (i : Nat) :
    ∃ tickets, desks calls (.start s (calls.map fun call => processBatch call.1 call.2)) i = .idle tickets := by
  unfold desks
  split
  · next call c at_call at_course =>
    have fresh : c.asked = [] := by
      simp only [Turns.start, List.map_map, List.getElem?_map, at_call, Option.map_some, Option.some.injEq] at at_course
      rw [← at_course]
      rfl
    rw [fresh]
    exact ⟨_, rfl⟩
  · exact ⟨_, rfl⟩

theorem selling_start {launches : List Launch} (distinct : (launches.map Launch.id).Nodup)
    (stocked : ∀ x ∈ launches, 0 ≤ x.stock) (calls : Calls) (s : Station (Faulty MemoryLedger))
    (injections : List (Injection CallKind Fault)) :
    Selling launches calls
      (.start (s.opening launches injections) (calls.map fun call => processBatch call.1 call.2)) := by
  refine ⟨?_, ⟨MemoryLedger.opening_orderly launches, ?_, ?_⟩,
    fun x member => MemoryLedger.opening_balanced distinct member (stocked x member)⟩
  · intro i c at_course
    simp only [Turns.start, List.map_map, List.getElem?_map, Option.map_eq_some_iff] at at_course
    obtain ⟨call, at_call, rfl⟩ := at_course
    exact ⟨call, at_call, Course.of_start _⟩
  · intro i
    obtain ⟨tickets, same⟩ := desks_start calls (s.opening launches injections) i
    rw [same]
    intro work first
    cases first
  · intro i j work first
    obtain ⟨tickets, same⟩ := desks_start calls (s.opening launches injections) i
    rw [same] at first
    cases first

theorem desks_set {t : MemoryTurns} {i : Nat} {c : Course Report} {call : Backoff × List Message}
    (at_call : calls[i]? = some call) (at_course : t.courses[i]? = some c) (s : Station (Faulty MemoryLedger))
    (c' : Course Report) :
    desks calls ⟨s, t.courses.set i c'⟩ = Function.update (desks calls t) i (deskAfter call.2 c'.asked) := by
  have within : i < t.courses.length := (List.getElem?_eq_some_iff.mp at_course).1
  funext j
  by_cases own : j = i
  · subst own
    rw [Function.update_self]
    simp [desks, at_call, within]
  · rw [Function.update_of_ne own]
    simp [desks, List.getElem?_set_ne (Ne.symm own)]

theorem selling_due {launches : List Launch} {t : MemoryTurns} (h : Selling launches calls t) {i : Nat}
    {c : Course Report} (at_course : t.courses[i]? = some c) {q : Ask} {next : q.Reply → Program Report}
    (asks : c.rest = .ask q next) :
    ∃ call, calls[i]? = some call ∧ c.Of (processBatch call.1 call.2) ∧
      desks calls t i = deskAfter call.2 c.asked ∧ (desks calls t i).allows q := by
  obtain ⟨call, at_call, course⟩ := h.courses i c at_course
  have desk : desks calls t i = deskAfter call.2 c.asked := by simp only [desks, at_call, at_course]
  exact ⟨call, at_call, course, desk, desk ▸ deskAfter_allows course asks⟩

theorem selling_turn {launches : List Launch} {t : MemoryTurns} (h : Selling launches calls t) (i : Nat) :
    Selling launches calls (t.turn (Station.answer Faulty.settleMemory) i) := by
  rcases t.turn_cases (Station.answer Faulty.settleMemory) i with same | ⟨c, q, next, at_course, asks, turned⟩
  · rwa [same]
  · obtain ⟨call, at_call, course, desk, allowed⟩ := selling_due h at_course asks
    have answered := answer_answered t.state q
    have ahead := Course.of_step (Station.answer Faulty.settleMemory) t.state course
    rw [Course.step_ask _ t.state asks] at ahead
    rw [turned]
    refine ⟨?_, ?_, ?_⟩
    · intro j c' at_course'
      by_cases own : j = i
      · subst own
        have within : j < t.courses.length := (List.getElem?_eq_some_iff.mp at_course).1
        simp only [List.getElem?_set_self within, Option.some.injEq] at at_course'
        subst at_course'
        exact ⟨call, at_call, ahead⟩
      · rw [List.getElem?_set_ne (Ne.symm own)] at at_course'
        exact h.courses j c' at_course'
    · rw [desks_set at_call at_course, deskAfter_snoc, ← desk]
      exact h.accord.step allowed answered
    · intro x member
      exact h.accord.balanced allowed answered (h.balanced x member)

theorem selling_beat {launches : List Launch} {t : MemoryTurns} (h : Selling launches calls t)
    (move : Beat (Station.Change Arming)) :
    Selling launches calls (t.beat (Station.answer Faulty.settleMemory) (Station.change Faulty.arm) move) := by
  cases move with
  | turn i => exact selling_turn h i
  | change e =>
    have same := change_holdings t.state e
    exact ⟨h.courses, same ▸ h.accord, same ▸ h.balanced⟩

theorem selling_run {launches : List Launch} {t : MemoryTurns} (h : Selling launches calls t)
    (schedule : List (Beat (Station.Change Arming))) :
    Selling launches calls (t.run (Station.answer Faulty.settleMemory) (Station.change Faulty.arm) schedule) := by
  induction schedule generalizing t with
  | nil => exact h
  | cons move schedule ih => exact ih (selling_beat h move)

/-- What is true of a campaign and its stock at any time. -/
structure Conserved (l : MemoryLedger) (x : Launch) (c : Ledger.Campaign) : Prop where
  found : l.campaign? x.id = some c
  nonneg : 0 ≤ c.currentStock
  bounded : c.currentStock ≤ x.stock
  accounted : x.stock - c.currentStock = l.holdings.sold x.id + l.holdings.held x.id
  /-- When no transaction is open. -/
  settled : l.works = [] → (l.holdings.sold x.id : Int) = x.stock - c.currentStock ∧ l.holdings.sold x.id ≤ x.stock

theorem balanced_conserved {l : MemoryLedger} {x : Launch} (h : l.holdings.Balanced x.id x.stock) :
    ∃ c, Conserved l x c := by
  obtain ⟨c, found, nonneg, sum⟩ := h
  refine ⟨c, found, nonneg, by omega, by omega, ?_⟩
  intro closed
  have unheld : l.holdings.held x.id = 0 := by
    have empty : l.holdings.works = [] := closed
    simp [Holdings.held, empty, Ledger.Table.total]
  omega

/-- Whatever the schedule, the failures and the batches are. -/
theorem stock_conserved {launches : List Launch} (distinct : (launches.map Launch.id).Nodup)
    (stocked : ∀ x ∈ launches, 0 ≤ x.stock) (calls : Calls) (s : Station (Faulty MemoryLedger))
    (injections : List (Injection CallKind Fault)) (schedule : List (Beat (Station.Change Arming))) :
    let start := Turns.start (s.opening launches injections) (calls.map fun call => processBatch call.1 call.2)
    let stop := start.run (Station.answer Faulty.settleMemory) (Station.change Faulty.arm) schedule
    ∀ x ∈ launches, ∃ c, Conserved stop.state.store.inner x c := by
  intro start stop x member
  have begun : Selling launches calls start := selling_start distinct stocked calls s injections
  exact balanced_conserved ((selling_run begun schedule).balanced x member)

def epoch : Instant := ⟨⟨0, by decide⟩, .midnight⟩

def twice : Backoff := ⟨2, ⟨0⟩, ⟨0⟩, .finite false 1 0, false⟩

def taking (partition offset : Int) : Message :=
  ⟨none, "\x7b\"campaignId\":1,\"userId\":7\x7d".toUTF8.toList, ⟨partition, offset, none⟩⟩

def stand : Station (Faulty MemoryLedger) := { store := ⟨{}, []⟩, now := epoch, deadLetterTopic := "dead" }

def contest : List (Beat (Station.Change Arming)) :=
  [.turn 0, .turn 0, .turn 0, .turn 1, .turn 1, .turn 1, .change (.store (.mishaps { rejectAppends := true })),
    .turn 0, .turn 0]

theorem stock_conserved_contest :
    let start := Turns.start (stand.opening [⟨1, 1, epoch⟩] [])
      ([(twice, [taking 0 0]), (twice, [taking 1 0])].map fun call => processBatch call.1 call.2)
    let stop := start.run (Station.answer Faulty.settleMemory) (Station.change Faulty.arm) contest
    ([⟨1, 1, epoch⟩].map Launch.id).Nodup ∧ (∀ x ∈ [(⟨1, 1, epoch⟩ : Launch)], 0 ≤ x.stock) ∧
      stop.state.store.inner.holdings.held 1 = 1 ∧ ∃ c, Conserved stop.state.store.inner ⟨1, 1, epoch⟩ c := by
  refine ⟨by decide, by decide, by decide +kernel, ?_⟩
  exact stock_conserved (by decide) (by decide) [(twice, [taking 0 0]), (twice, [taking 1 0])] stand [] contest
    ⟨1, 1, epoch⟩ (by simp)

end CampaignSettlement.Settlement
