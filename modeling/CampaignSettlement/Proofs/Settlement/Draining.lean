import CampaignSettlement.Proofs.Settlement.Queues
import CampaignSettlement.Settlement.Station

/-!
Draining. A worker that goes on alone leaves its queue empty and the other queues as they are, so that
nothing is queued after all partitions have been drained whose queues were not empty.
-/
namespace CampaignSettlement.Settlement

open Calendar (Instant)
open Ledger (Settler)
open Wire (Message)

variable {σ α : Type} {settler : Instant → Settler σ} {b : Backoff}

def Station.closing (s : Station σ) (partition : Int) (goesOn : Bool) : Station σ :=
  { s with pool := if goesOn then s.pool else s.pool.lose partition }

theorem Station.drainLane_stop {p : Int} {s : Station σ} {pool : Pool} (received : s.pool.receive p = (pool, []))
    (fuel : Nat) : s.drainLane settler b p (fuel + 1) = s := by
  simp only [drainLane, received, List.isEmpty_nil, if_true]

theorem Station.drainLane_go_on {p : Int} {s s' : Station σ} {pool : Pool} {batch : List Message} {goesOn : Bool}
    (received : s.pool.receive p = (pool, batch)) (some_message : batch ≠ [])
    (ran : (round b p batch).run (answer settler) { s with pool } = (s', goesOn)) (fuel : Nat) :
    s.drainLane settler b p (fuel + 1) =
      if goesOn then s'.drainLane settler b p fuel else s'.closing p false := by
  have not_empty : batch.isEmpty = false := by simpa using some_message
  simp only [drainLane, received, not_empty, Bool.false_eq_true, if_false, perform, ran]
  rfl

variable (settler b)

theorem run_standing (program : Program α) (s : Station σ) (y : Int) :
    (program.run (Station.answer settler) s).1.pool.standing y = s.pool.standing y ∧
      (program.run (Station.answer settler) s).1.pool.batchSize = s.pool.batchSize := by
  induction program generalizing s with
  | done a => exact ⟨rfl, rfl⟩
  | ask q next ih =>
    obtain ⟨standing, size⟩ := ih (s.answer settler q).2 (s.answer settler q).1
    obtain ⟨standing', size'⟩ := s.answer_standing settler q y
    exact ⟨standing.trans standing', size.trans size'⟩

structure Pool.Sound (p : Pool) : Prop where
  some_room : 1 ≤ p.batchSize
  lost : ∀ y, (p.standing y).2 = false → (p.standing y).1 = []

theorem Pool.Sound.keep {p p' : Pool} (h : p.Sound) (size : p'.batchSize = p.batchSize)
    (kept : ∀ y, p'.standing y = p.standing y ∨ (p'.standing y).1 = [] ∨ (p'.standing y).2 = true) : p'.Sound := by
  refine ⟨size ▸ h.some_room, ?_⟩
  intro y dead
  rcases kept y with same | empty | alive
  · rw [same] at dead ⊢
    exact h.lost y dead
  · exact empty
  · rw [alive] at dead
    cases dead

theorem Pool.receive_none {p pool : Pool} {x : Int} (h : p.Sound) (received : p.receive x = (pool, [])) :
    (p.standing x).1 = [] := by
  unfold receive at received
  cases alive : (p.lane x).alive with
  | false => exact h.lost x alive
  | true =>
    simp only [alive, if_true, Prod.mk.injEq, List.take_eq_nil_iff] at received
    rcases received.2 with none | empty
    · have some_room := h.some_room
      omega
    · exact empty

theorem Pool.receive_some {p pool : Pool} {x : Int} {batch : List Message} (received : p.receive x = (pool, batch))
    (some_message : batch ≠ []) :
    ∃ rest, rest.length < (p.standing x).1.length ∧ pool.batchSize = p.batchSize ∧
      ∀ y, pool.standing y = if y = x then (rest, true) else p.standing y := by
  unfold receive at received
  cases alive : (p.lane x).alive with
  | false =>
    simp only [alive, Bool.false_eq_true, if_false, Prod.mk.injEq] at received
    exact absurd received.2.symm some_message
  | true =>
    simp only [alive, if_true, Prod.mk.injEq] at received
    obtain ⟨rfl, rfl⟩ := received
    simp only [ne_eq, List.take_eq_nil_iff, not_or] at some_message
    have some_queued : 0 < (p.lane x).queue.length := List.length_pos_iff.mpr some_message.2
    refine ⟨(p.lane x).queue.drop p.batchSize, ?_, rfl, ?_⟩
    · rw [List.length_drop]
      change (p.lane x).queue.length - p.batchSize < (p.lane x).queue.length
      omega
    · exact standing_setLane p x _

theorem drainLane_empties (p : Int) (fuel : Nat) {s : Station σ} (sound : s.pool.Sound)
    (enough : (s.pool.standing p).1.length < fuel) :
    let drained := s.drainLane settler b p fuel
    drained.pool.Sound ∧ (drained.pool.standing p).1 = [] ∧ ∀ y ≠ p, drained.pool.standing y = s.pool.standing y := by
  induction fuel generalizing s with
  | zero => exact absurd enough (Nat.not_lt_zero _)
  | succ fuel ih =>
    rcases received : s.pool.receive p with ⟨pool, batch⟩
    by_cases none : batch = []
    · rw [none] at received
      rw [Station.drainLane_stop received]
      exact ⟨sound, Pool.receive_none sound received, fun _ _ => rfl⟩
    · obtain ⟨rest, shorter, size, standing⟩ := Pool.receive_some received none
      have quiet := run_standing settler (round b p batch) { s with pool }
      rcases ran : (round b p batch).run (Station.answer settler) { s with pool } with ⟨s', goesOn⟩
      rw [Station.drainLane_go_on received none ran]
      rw [ran] at quiet
      have here : s'.pool.standing p = (rest, true) := (quiet p).1.trans ((standing p).trans (if_pos rfl))
      have others : ∀ y ≠ p, s'.pool.standing y = s.pool.standing y := by
        intro y other
        exact (quiet y).1.trans ((standing y).trans (if_neg other))
      have same_size : s'.pool.batchSize = s.pool.batchSize := (quiet p).2.trans size
      cases goesOn with
      | true =>
        have sound' : s'.pool.Sound := by
          refine sound.keep same_size ?_
          intro y
          by_cases own : y = p
          · exact Or.inr (Or.inr (by rw [own, here]))
          · exact Or.inl (others y own)
        obtain ⟨sound'', empty, others'⟩ := ih sound' (by rw [here]; dsimp only; omega)
        exact ⟨sound'', empty, fun y other => (others' y other).trans (others y other)⟩
      | false =>
        have lost : ∀ y, (s'.closing p false).pool.standing y = if y = p then ([], false) else s'.pool.standing y :=
          Pool.standing_lose s'.pool p
        simp only [Bool.false_eq_true, if_false]
        refine ⟨sound.keep same_size ?_, ?_, ?_⟩
        · intro y
          by_cases own : y = p
          · exact Or.inr (Or.inl (by rw [lost, if_pos own]))
          · exact Or.inl ((lost y).trans ((if_neg own).trans (others y own)))
        · rw [lost, if_pos rfl]
        · intro y other
          exact (lost y).trans ((if_neg other).trans (others y other))

theorem drainLanes_empty (order : List Int) {s : Station σ} (sound : s.pool.Sound)
    (listed : ∀ y, (s.pool.standing y).1 ≠ [] → y ∈ order) (y : Int) :
    let drained := order.foldl (fun s p => s.drainLane settler b p ((s.pool.lane p).queue.length + 1)) s
    (drained.pool.standing y).1 = [] := by
  induction order generalizing s with
  | nil =>
    cases queue : (s.pool.standing y).1 with
    | nil => exact queue
    | cons m rest => cases listed y (by simp [queue])
  | cons p order ih =>
    obtain ⟨sound', empty, others⟩ := drainLane_empties settler b p _ sound (Nat.lt_succ_self _)
    refine ih sound' ?_
    intro z queued
    have other : z ≠ p := by
      intro same
      rw [same] at queued
      exact queued empty
    have before : (s.pool.standing z).1 ≠ [] := fun none => queued ((congrArg Prod.fst (others z other)).trans none)
    exact (List.mem_cons.mp (listed z before)).resolve_left other

/-- Every queue that is not empty is due for draining. -/
def Pool.Listed (p : Pool) : Prop := ∀ y, (p.standing y).1 ≠ [] → y ∈ p.order

theorem order_dispatch (p : Pool) (m : Message) :
    (∀ y ∈ p.order, y ∈ (p.dispatch m).1.order) ∧
      ((p.standing m.receipt.partition).2 = true → m.receipt.partition ∈ (p.dispatch m).1.order) := by
  have alive := Lane.countIn_alive p.capacity (p.lane m.receipt.partition)
  rcases counted : (p.lane m.receipt.partition).countIn p.capacity with ⟨l, signal⟩
  rw [counted] at alive
  simp only [Pool.dispatch, counted, Pool.standing, ← alive]
  by_cases here : l.alive = true
  · simp only [here, if_true]
    by_cases known : p.order.contains m.receipt.partition = true
    · simp only [known, if_true]
      exact ⟨fun y member => member, fun _ => List.contains_iff_mem.mp known⟩
    · simp only [known, if_false, Bool.false_eq_true]
      exact ⟨fun y member => List.mem_append_left _ member, fun _ => by simp⟩
  · simp only [here, if_false, Bool.false_eq_true]
    exact ⟨fun y member => member, fun alive => absurd alive id⟩

theorem listed_dispatch {p : Pool} (h : p.Listed) (m : Message) : (p.dispatch m).1.Listed := by
  obtain ⟨older, own⟩ := order_dispatch p m
  intro y queued
  rw [Pool.standing_dispatch] at queued
  split at queued
  · next here =>
    obtain ⟨rfl, alive⟩ := here
    exact own alive
  · exact older y (h y queued)

def Station.dispatchAll (s : Station σ) (ms : List Message) : Station σ := ms.foldl (fun s m => (s.dispatch m).1) s

theorem listed_dispatchAll (ms : List Message) {s : Station σ} (listed : s.pool.Listed) :
    (s.dispatchAll ms).pool.Listed := by
  induction ms generalizing s with
  | nil => exact listed
  | cons m ms ih => exact ih (s := (s.dispatch m).1) (listed_dispatch listed m)

end CampaignSettlement.Settlement
