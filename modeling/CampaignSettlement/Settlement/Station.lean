import CampaignSettlement.Metrics.Services
import CampaignSettlement.Settlement.Lane
import CampaignSettlement.Settlement.Sequence
import CampaignSettlement.Settlement.Worker
import CampaignSettlement.Wire.Sink

/-!
The surroundings of settlement: a store, the global sequence, the dead-letter topic, the clock, the
queues, and what is counted and recorded along the way. Time stands still unless it is set.
-/
namespace CampaignSettlement.Settlement

open Calendar (Instant)
open Ledger (Settler)
open Wire (Letter Message Sink)

structure AckState where
  failing : Bool := false
  breaking : Bool := false
  done : List (Int × Int) := []
deriving DecidableEq, Repr

/-- The batch processor with all that it calls, and the pool that hands it its batches; `delays` are the waits made. -/
structure Station (σ : Type) where
  store : σ
  now : Instant
  deadLetterTopic : String
  sequence : Sequence := {}
  sink : Sink := {}
  delays : List Duration := []
  acks : AckState := {}
  pool : Pool := {}
  signals : List (Signal × Int) := []
  metrics : Metrics.Settlement := {}

def Measure.apply (m : Metrics.Settlement) : Measure → Metrics.Settlement
  | .settled r =>
    { m with messages := m.messages.add [match r with | .success => "success" | .fail => "fail"] 1 }
  | .deadLettered => { m with messages := m.messages.add ["dead_lettered"] 1 }
  | .letters reason n => { m with deadLetters := m.deadLetters.add [reason.name] (.ofNat n) }
  | .publishFailure => { m with publishFailures := m.publishFailures + 1 }
  | .retry => { m with retries := m.retries + 1 }
  | .ackFailure => { m with ackFailures := m.ackFailures + 1 }
  | .sequence n => { m with sequence := n }
  | .batchDone => { m with batchSeconds := m.batchSeconds.observe (Number.double.ofNat 0) }

namespace Station

variable {σ : Type}

/-- An acknowledgement is recorded even when it fails. -/
def ack (s : Station σ) (partition offset : Int) : Station σ × AckReply :=
  if s.acks.breaking then ({ s with acks := { s.acks with breaking := false } }, .broken)
  else
    let s := { s with acks := { s.acks with done := s.acks.done ++ [(partition, offset)] } }
    (s, if s.acks.failing then .failed ⟨partition, "offset commit refused"⟩ else .done)

def answer (settler : Instant → Settler σ) (s : Station σ) : (q : Ask) → Station σ × q.Reply
  | .store c =>
    let (store, reply) := settler s.now s.store c
    ({ s with store }, reply)
  | .draw =>
    let (sequence, n) := s.sequence.draw
    ({ s with sequence }, n)
  | .current => (s, s.sequence.current)
  | .now => (s, s.now)
  | .publish key e =>
    let (sink, sent) := s.sink.send ⟨s.deadLetterTopic, key, e.text⟩
    ({ s with sink }, sent.toBool)
  | .wait d => ({ s with delays := s.delays ++ [d] }, ())
  | .measure m => ({ s with metrics := m.apply s.metrics }, ())
  | .account partition n =>
    let (pool, signals) := s.pool.account partition n
    ({ s with pool, signals := s.signals ++ signals }, ())
  | .ack partition offset => s.ack partition offset

def perform {α : Type} (settler : Instant → Settler σ) (s : Station σ) (p : Program α) : Station σ × α :=
  p.run (answer settler) s

def dispatch (s : Station σ) (m : Message) : Station σ × Bool :=
  let (pool, signals, taken) := s.pool.dispatch m
  ({ s with pool, signals := s.signals ++ signals }, taken)

inductive Change (ε : Type)
  | store (e : ε)
  | time (now : Instant)
  | sink (failing : Bool)
  | acks (failing breaking : Bool)
deriving DecidableEq, Repr

def change {ε : Type} (disturb : ε → σ → σ) (s : Station σ) : Change ε → Station σ
  | .store e => { s with store := disturb e s.store }
  | .time now => { s with now }
  | .sink failing => { s with sink := { s.sink with failing } }
  | .acks failing breaking => { s with acks := { s.acks with failing, breaking } }

/-- The worker of a partition goes on until its queue is empty; each round takes a message, so the
length of the queue is fuel enough. -/
def drainLane (settler : Instant → Settler σ) (b : Backoff) (partition : Int) : Nat → Station σ → Station σ
  | 0, s => s
  | fuel + 1, s =>
    let (pool, batch) := s.pool.receive partition
    if batch.isEmpty then s
    else
      let (s, goesOn) := perform settler { s with pool } (round b partition batch)
      if goesOn then drainLane settler b partition fuel s
      else { s with pool := s.pool.lose partition }

def drain (settler : Instant → Settler σ) (b : Backoff) (s : Station σ) : Station σ :=
  let s' := s.pool.order.foldl
    (fun s p => drainLane settler b p ((s.pool.lane p).queue.length + 1) s) s
  { s' with pool := { s'.pool with order := [] } }

end Station

end CampaignSettlement.Settlement
