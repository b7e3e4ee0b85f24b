import CampaignSettlement.Proofs.Ledger.Table
import CampaignSettlement.Settlement.Station

/-!
Queues of the partitions. A message joins the queue of its partition at the end and leaves it at the
front; accounting, acknowledgements and all other questions of a worker leave the queues as they are.
-/
namespace CampaignSettlement.Settlement

open Calendar (Instant)
open Ledger (Settler Table)
open Wire (Message)

namespace Lane

theorem countIn_queue (capacity : Nat) (l : Lane) : (l.countIn capacity).1.queue = l.queue := by
  unfold countIn
  dsimp only
  split <;> rfl

theorem countIn_alive (capacity : Nat) (l : Lane) : (l.countIn capacity).1.alive = l.alive := by
  unfold countIn
  dsimp only
  split <;> rfl

theorem countOut_queue (capacity n : Nat) (l : Lane) : (l.countOut capacity n).1.queue = l.queue := by
  unfold countOut
  dsimp only
  split <;> rfl

theorem countOut_alive (capacity n : Nat) (l : Lane) : (l.countOut capacity n).1.alive = l.alive := by
  unfold countOut
  dsimp only
  split <;> rfl

end Lane

namespace Pool

theorem lane_setLane (p : Pool) (x : Int) (l : Lane) (y : Int) :
    (p.setLane x l).lane y = if y = x then l else p.lane y := by
  rw [lane, setLane, Table.get?_put]
  split <;> rfl

theorem setLane_setLane (p : Pool) (x : Int) (l m : Lane) : (p.setLane x l).setLane x m = p.setLane x m := by
  simp only [setLane, Table.put_put]

/-- What counts of a lane for the order of its messages. -/
def standing (p : Pool) (partition : Int) : List Message × Bool :=
  ((p.lane partition).queue, (p.lane partition).alive)

theorem standing_setLane (p : Pool) (x : Int) (l : Lane) (y : Int) :
    (p.setLane x l).standing y = if y = x then (l.queue, l.alive) else p.standing y := by
  rw [standing, lane_setLane]
  split <;> rfl

theorem standing_dispatch (p : Pool) (m : Message) (y : Int) :
    (p.dispatch m).1.standing y =
      if y = m.receipt.partition ∧ (p.standing y).2 = true then ((p.standing y).1 ++ [m], true) else p.standing y := by
  have alive := Lane.countIn_alive p.capacity (p.lane m.receipt.partition)
  have queue := Lane.countIn_queue p.capacity (p.lane m.receipt.partition)
  rcases counted : (p.lane m.receipt.partition).countIn p.capacity with ⟨l, signal⟩
  rw [counted] at alive queue
  simp only [dispatch, counted]
  by_cases here : l.alive = true
  · simp only [here, if_true]
    refine (standing_setLane p m.receipt.partition _ y).trans ?_
    by_cases own : y = m.receipt.partition
    · subst own
      simp [standing, ← alive, ← queue, here]
    · simp [own]
  · simp only [here, if_false, Bool.false_eq_true]
    rw [standing_setLane, Lane.countOut_queue, Lane.countOut_alive]
    by_cases own : y = m.receipt.partition
    · subst own
      simp [standing, ← alive, ← queue, here]
    · simp [own]

theorem standing_account (p : Pool) (x : Int) (n : Nat) (y : Int) :
    (p.account x n).1.standing y = p.standing y := by
  unfold account
  dsimp only
  rw [standing_setLane, Lane.countOut_queue, Lane.countOut_alive]
  split
  · next own =>
    rw [own]
    rfl
  · rfl

theorem standing_lose (p : Pool) (x y : Int) :
    (p.lose x).standing y = if y = x then ([], false) else p.standing y := standing_setLane p x _ y

theorem pop?_some {p p' : Pool} {x : Int} {m : Message} (h : p.pop? x = some (m, p')) :
    ∃ rest, p.standing x = (m :: rest, true) ∧ p'.batchSize = p.batchSize ∧
      ∀ y, p'.standing y = if y = x then (rest, true) else p.standing y := by
  unfold pop? at h
  split at h
  · next m' rest queued paused lane =>
    simp only [Option.some.injEq, Prod.mk.injEq] at h
    obtain ⟨rfl, rfl⟩ := h
    exact ⟨rest, by simp [standing, lane], rfl, standing_setLane p x _⟩
  · cases h

theorem pop?_lane {p p' : Pool} {x : Int} {m : Message} (h : p.pop? x = some (m, p')) :
    ∃ rest, (p.lane x).queue = m :: rest ∧ p' = p.setLane x { p.lane x with queue := rest } := by
  unfold pop? at h
  split at h
  · next m' rest queued paused lane =>
    simp only [Option.some.injEq, Prod.mk.injEq] at h
    obtain ⟨rfl, rfl⟩ := h
    exact ⟨rest, by rw [lane], by rw [lane]⟩
  · cases h

theorem batchSize_dispatch (p : Pool) (m : Message) : (p.dispatch m).1.batchSize = p.batchSize := by
  unfold dispatch
  dsimp only
  split <;> rfl

end Pool

namespace Station

variable {σ ε : Type}

theorem answer_standing (settler : Instant → Settler σ) (s : Station σ) (q : Ask) (y : Int) :
    (s.answer settler q).1.pool.standing y = s.pool.standing y ∧
      (s.answer settler q).1.pool.batchSize = s.pool.batchSize := by
  cases q with
  | account x n => exact ⟨s.pool.standing_account x n y, rfl⟩
  | ack x offset =>
    simp only [answer, ack]
    split <;> exact ⟨rfl, rfl⟩
  | _ => exact ⟨rfl, rfl⟩

theorem change_pool (disturb : ε → σ → σ) (s : Station σ) (e : Change ε) : (s.change disturb e).pool = s.pool := by
  cases e <;> rfl

end Station

end CampaignSettlement.Settlement
