import CampaignSettlement.Settlement.Crew

/-!
The intake of the workers, one step finer. A message is counted in at its lane before it is sent to the worker, and
between the two the workers and the station may move on; one that cannot be sent is counted out again. A worker can be
lost at any time, with all that it has in hand.
-/
namespace CampaignSettlement.Settlement

open Calendar (Instant)
open Ledger (Settler)
open Wire (Message)

namespace Pool

def enter (p : Pool) (m : Message) : Pool × List (Signal × Int) :=
  let (l, s) := (p.lane m.receipt.partition).countIn p.capacity
  (p.setLane m.receipt.partition l, p.signals m.receipt.partition s)

def deliver (p : Pool) (m : Message) : Pool × List (Signal × Int) × Bool :=
  let partition := m.receipt.partition
  let l := p.lane partition
  if l.alive then
    let order := if p.order.contains partition then p.order else p.order ++ [partition]
    ({ p.setLane partition { l with queue := l.queue ++ [m] } with order }, [], true)
  else
    let (pool, signals) := p.account partition 1
    (pool, signals, false)

end Pool

namespace Station

variable {σ : Type}

def enter (s : Station σ) (m : Message) : Station σ :=
  let (pool, signals) := s.pool.enter m
  { s with pool, signals := s.signals ++ signals }

def deliver (s : Station σ) (m : Message) : Station σ :=
  let (pool, signals, _) := s.pool.deliver m
  { s with pool, signals := s.signals ++ signals }

end Station

structure Intake (σ : Type) where
  crew : Crew σ
  /-- Counted in, and to be sent next. -/
  held : Option Message := none

namespace Intake

inductive Move (ε : Type)
  | enter (m : Message)
  | deliver
  | receive (partition : Int)
  | gather (partition : Int)
  | turn (partition : Int)
  | change (e : Station.Change ε)
  | lose (partition : Int)
deriving DecidableEq, Repr

variable {σ ε : Type}

def start (s : Station σ) (batchSize capacity : Nat) (flow : Bool) : Intake σ :=
  { crew := .start { s with signals := [] } batchSize capacity flow }

def move (settler : Instant → Settler σ) (disturb : ε → σ → σ) (b : Backoff) (i : Intake σ) : Move ε → Intake σ
  | .enter m =>
    match i.held with
    | some _ => i
    | none => ⟨{ i.crew with station := i.crew.station.enter m }, some m⟩
  | .deliver =>
    match i.held with
    | some m => ⟨{ i.crew with station := i.crew.station.deliver m }, none⟩
    | none => i
  | .receive partition => { i with crew := i.crew.move settler disturb b (.receive partition) }
  | .gather partition => { i with crew := i.crew.move settler disturb b (.gather partition) }
  | .turn partition => { i with crew := i.crew.move settler disturb b (.turn partition) }
  | .change e => { i with crew := i.crew.move settler disturb b (.change e) }
  | .lose partition =>
    let station := { i.crew.station with pool := i.crew.station.pool.lose partition }
    { i with crew := i.crew.set station partition { i.crew.worker partition with phase := .idle } }

def run (settler : Instant → Settler σ) (disturb : ε → σ → σ) (b : Backoff) (i : Intake σ)
    (schedule : List (Move ε)) : Intake σ :=
  schedule.foldl (move settler disturb b) i

def partition? (i : Intake σ) : Move ε → Option Int
  | .enter m => some m.receipt.partition
  | .deliver => i.held.map fun m => m.receipt.partition
  | .receive p | .gather p | .turn p | .lose p => some p
  | .change _ => none

end Intake

end CampaignSettlement.Settlement
