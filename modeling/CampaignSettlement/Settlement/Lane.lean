import CampaignSettlement.Ledger.Table
import CampaignSettlement.Wire.Message

/-!
Queues of the partitions. A lane counts the messages that were dispatched and not yet taken; its intake
is paused when the count reaches the capacity, and resumed when it has come down to half of that.
-/
namespace CampaignSettlement.Settlement

open Ledger (Table)
open Wire (Message)

inductive Signal
  | pause
  | resume
deriving DecidableEq, Repr

def Signal.name : Signal → String
  | pause => "pause"
  | resume => "resume"

structure Lane where
  queue : List Message := []
  /-- Messages counted in and not yet counted out. -/
  queued : Nat := 0
  paused : Bool := false
  alive : Bool := true
deriving DecidableEq, Repr

namespace Lane

def countIn (capacity : Nat) (l : Lane) : Lane × Option Signal :=
  let l := { l with queued := l.queued + 1 }
  if !l.paused && capacity ≤ l.queued then ({ l with paused := true }, some .pause) else (l, none)

def countOut (capacity n : Nat) (l : Lane) : Lane × Option Signal :=
  let l := { l with queued := l.queued - n }
  if l.paused && l.queued ≤ capacity / 2 then ({ l with paused := false }, some .resume) else (l, none)

end Lane

/-- One lane for each partition that was ever dispatched to. -/
structure Pool where
  batchSize : Nat := 1
  capacity : Nat := 1
  flow : Bool := true
  lanes : Table Int Lane := []
  /-- Partitions in the order of their first dispatch since the last drain. -/
  order : List Int := []
deriving DecidableEq, Repr

namespace Pool

def ofSizes (batchSize capacity : Nat) (flow : Bool) : Pool :=
  { batchSize := max batchSize 1, capacity := max capacity 1, flow }

def lane (p : Pool) (partition : Int) : Lane := (p.lanes.get? partition).getD {}

def setLane (p : Pool) (partition : Int) (l : Lane) : Pool := { p with lanes := p.lanes.put partition l }

def signals (p : Pool) (partition : Int) (s : Option Signal) : List (Signal × Int) :=
  if p.flow then (s.map (·, partition)).toList else []

/-- Queues a message on its partition; tells whether it was taken. A lane without a worker counts the
message in and out again. -/
def dispatch (p : Pool) (m : Message) : Pool × List (Signal × Int) × Bool :=
  let partition := m.receipt.partition
  let (l, s) := (p.lane partition).countIn p.capacity
  if l.alive then
    let order := if p.order.contains partition then p.order else p.order ++ [partition]
    ({ p.setLane partition { l with queue := l.queue ++ [m] } with order }, p.signals partition s, true)
  else
    let (l, t) := l.countOut p.capacity 1
    (p.setLane partition l, p.signals partition s ++ p.signals partition t, false)

def receive (p : Pool) (partition : Int) : Pool × List Message :=
  let l := p.lane partition
  if l.alive then
    (p.setLane partition { l with queue := l.queue.drop p.batchSize }, l.queue.take p.batchSize)
  else (p, [])

def pop? (p : Pool) (partition : Int) : Option (Message × Pool) :=
  match p.lane partition with
  | { queue := m :: rest, alive := true, queued, paused } =>
    some (m, p.setLane partition { queue := rest, alive := true, queued, paused })
  | _ => none

def account (p : Pool) (partition : Int) (n : Nat) : Pool × List (Signal × Int) :=
  let (l, s) := (p.lane partition).countOut p.capacity n
  (p.setLane partition l, p.signals partition s)

/-- The worker is gone, and its queue with it. -/
def lose (p : Pool) (partition : Int) : Pool :=
  p.setLane partition { p.lane partition with alive := false, queue := [] }

end Pool

end CampaignSettlement.Settlement
