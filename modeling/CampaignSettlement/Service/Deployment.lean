import CampaignSettlement.Aggregation.Schedule
import CampaignSettlement.Service.Admission
import CampaignSettlement.Service.Analytics
import CampaignSettlement.Service.Consumer
import CampaignSettlement.Settlement.Station

/-!
The three services around one set of books: the consumer with its workers, analytics with its aggregation
job and daily schedules, and admission. Time stands still between steps. The wall clock and the timers
are apart: setting the one does not move the other.
-/
namespace CampaignSettlement.Service

open Aggregation (Job Mode Trigger)
open Calendar (Date Instant TimeOfDay)
open Http (Request Response)
open Ledger (Books CallKind Faulty Injection MemoryLedger Record SqlLedger StoreCall Window)
open Number (Overflow)
open Settlement (Backoff Duration Pool Reason Report Signal Station)
open Wire (Letter Message)

structure Schedule where
  runAt : TimeOfDay
  next : Instant
  /-- On the timers, in milliseconds. -/
  due : Nat
  /-- The job it was made for, once another has taken that one's place. -/
  own : Option Job := none

structure Deployment where
  station : Station (Faulty Books)
  backoff : Backoff
  analytics : Analytics
  admission : Admission
  timer : Nat := 0
  schedules : List Schedule := []
  /-- Pools that were replaced before their queues were empty. -/
  retired : List Pool := []

structure Effects where
  letters : List Letter
  delays : List Duration
  acks : List (Int × Int)
  signals : List (Signal × Int)
  sequence : Int
  begins : Nat

namespace Deployment

def start (topic : String) (now : Instant) (backoff : Backoff) (sequence : Settlement.Sequence) (job : Job)
    (sampleLimit : Nat) (books : Books) : Deployment where
  station :=
    { store := ⟨books, []⟩, now, deadLetterTopic := Settlement.deadLetterTopic topic, sequence }
  backoff
  analytics := { job, sampleLimit }
  admission := { topic }

def now (d : Deployment) : Instant := d.station.now

def books (d : Deployment) : Books := d.station.store.inner

def setBooks (d : Deployment) (books : Books) : Deployment :=
  { d with station := { d.station with store := { d.station.store with inner := books } } }

def memory (d : Deployment) : MemoryLedger := d.books.memory

def onMemory (d : Deployment) (f : MemoryLedger → MemoryLedger) : Deployment :=
  d.setBooks { d.books with memory := f d.books.memory }

def database (d : Deployment) : SqlLedger := d.books.database

def onDatabase (d : Deployment) (f : SqlLedger → SqlLedger) : Deployment :=
  d.setBooks { d.books with database := f d.books.database }

def query {α : Type} (d : Deployment) (f : SqlLedger → SqlLedger × α) : Deployment × α :=
  let (db, a) := f d.database
  (d.onDatabase fun _ => db, a)

def onStation (d : Deployment) (f : Station (Faulty Books) → Station (Faulty Books)) : Deployment :=
  { d with station := f d.station }

def setNow (d : Deployment) (now : Instant) : Deployment := d.onStation fun s => { s with now }

def onMishaps (d : Deployment) (f : Ledger.Mishaps → Ledger.Mishaps) : Deployment :=
  d.onMemory fun m => { m with mishaps := f m.mishaps }

def inject (d : Deployment) (i : Injection CallKind Ledger.Fault) : Deployment :=
  d.onStation fun s => { s with store := { s.store with injections := s.store.injections ++ [i] } }

def settler (now : Instant) : Ledger.Settler (Faulty Books) := Faulty.settle (Books.settle now)

def call (d : Deployment) (c : StoreCall) : Deployment × c.Reply :=
  let (store, reply) := settler d.now d.station.store c
  ({ d with station := { d.station with store } }, reply)

def perform {α : Type} (d : Deployment) (p : Settlement.Program α) : Deployment × α :=
  let (station, a) := d.station.perform settler p
  ({ d with station }, a)

def processBatch (d : Deployment) (ms : List Message) : Deployment × Report :=
  d.perform (Settlement.processBatch d.backoff ms)

/-- A pool whose place is taken keeps what is queued until the next drain. -/
def setPool (d : Deployment) (p : Pool) : Deployment :=
  { d with station := { d.station with pool := p }, retired := d.retired ++ [d.station.pool] }

def dispatch (d : Deployment) (m : Message) : Deployment × Bool :=
  let (station, taken) := d.station.dispatch m
  ({ d with station }, taken)

def dispatchAll : Deployment → List Message → Deployment × Nat
  | d, [] => (d, 0)
  | d, m :: ms =>
    let (d, taken) := d.dispatch m
    let (d, refused) := d.dispatchAll ms
    (d, if taken then refused else refused + 1)

def drain (d : Deployment) : Deployment :=
  let drainOf (s : Station (Faulty Books)) (p : Pool) : Station (Faulty Books) :=
    Station.drain settler d.backoff { s with pool := p }
  let station := (d.retired ++ [d.station.pool]).foldl drainOf d.station
  { d with station, retired := [] }

def collect (d : Deployment) : Deployment × Effects :=
  let s := d.station
  let station :=
    { s with sink := { s.sink with sent := [] }, delays := [], acks := { s.acks with done := [] }, signals := [] }
  ({ d with station },
    ⟨s.sink.sent, s.delays, s.acks.done, s.signals, s.sequence.current, d.memory.begins⟩)

def job (d : Deployment) : Job := d.analytics.job

def setJob (d : Deployment) (j : Job) : Deployment := { d with analytics := { d.analytics with job := j } }

/-- A new job takes the place of the old one; the service starts anew around it, and schedules stay with
the job they were made for. -/
def replaceJob (d : Deployment) (j : Job) : Deployment :=
  { d with
    analytics := { job := j, sampleLimit := d.analytics.sampleLimit }
    schedules := d.schedules.map fun s => { s with own := some (s.own.getD d.job) } }

def runJob {α : Type} (d : Deployment) (f : Job → Books → Job × Books × α) : Deployment × α :=
  let (j, books, a) := f d.job d.books
  ((d.setBooks books).setJob j, a)

def aggregate (d : Deployment) (campaign : Option Int) (w : Window) (trigger : Trigger) :
    Deployment × Except Aggregation.Fault Aggregation.Report :=
  d.runJob fun j b => j.aggregate Books.totals d.now b campaign w trigger

def runOnDemand (d : Deployment) (campaign : Option Int) (w : Window) (today : Date) :
    Deployment × Except Aggregation.Fault Aggregation.Report :=
  d.runJob fun j b => j.runOnDemand Books.totals d.now b campaign w today

def runForDate (d : Deployment) (date : Date) : Deployment × Except Aggregation.Fault Aggregation.Report :=
  d.runJob fun j b => j.runForDate Books.totals d.now b date

def timerMillis (nanos : Int) : Nat := ((nanos + 999999) / 1000000).toNat

def arm (d : Deployment) (runAt : TimeOfDay) (own : Option Job) : Option Schedule :=
  match Aggregation.nextRun d.now runAt with
  | .ok next => some { runAt, next, due := d.timer + timerMillis (next.since d.now), own }
  | .error _ => none

def schedule (d : Deployment) (runAt : TimeOfDay) : Deployment :=
  { d with schedules := d.schedules ++ (d.arm runAt none).toList }

def runSchedule (d : Deployment) (s : Schedule) : Deployment × Option Job :=
  match Aggregation.aggregatedDate s.next with
  | none => (d, s.own)
  | some date =>
    match s.own with
    | none => ((d.runForDate date).1, none)
    | some j =>
      let (j, books, _) := j.runForDate Books.totals d.now d.books date
      (d.setBooks books, some j)

def firstDue (stop : Nat) (ss : List Schedule) : Option (Schedule × List Schedule) :=
  match (ss.filter (·.due ≤ stop)).map Schedule.due |>.min? with
  | none => none
  | some due =>
    let i := ss.findIdx (·.due == due)
    match ss[i]? with
    | some s => some (s, ss.eraseIdx i)
    | none => none

def wake : Nat → Nat → Deployment → Deployment
  | 0, _, d => d
  | fuel + 1, stop, d =>
    match firstDue stop d.schedules with
    | none => d
    | some (s, others) =>
      let d := { d with timer := max d.timer s.due }
      let (d, own) := d.runSchedule s
      wake fuel stop { d with schedules := others ++ (d.arm s.runAt own).toList }

/-- Each run is at least a millisecond after the one before it. -/
def wakeUntil (d : Deployment) (stop : Nat) : Deployment :=
  wake ((stop - d.timer + 1) * d.schedules.length) stop d

def advance (d : Deployment) (millis : Nat) : Deployment :=
  let now := (d.now.addNanos? (millis * 1000000)).getD d.now
  let timer := d.timer + millis
  wakeUntil { d with station := { d.station with now }, timer } timer

def sleep (d : Deployment) (millis : Nat) : Deployment :=
  let stop := d.timer + millis
  { wakeUntil d stop with timer := stop }

inductive App
  | participation
  | analytics
  | consumer
deriving DecidableEq, Repr

def App.ofName? (s : String) : Option App :=
  [("participation", App.participation), ("analytics", .analytics), ("consumer", .consumer)].lookup s

def publish (d : Deployment) (p : Wire.Participation) :
    Deployment × Except Wire.PublishFault Wire.Participation × List Letter :=
  let before := d.admission.sink.sent.length
  let (admission, published) := d.admission.publish p
  ({ d with admission }, published, admission.sink.sent.drop before)

def failAdmission (d : Deployment) (failing : Bool) : Deployment :=
  { d with admission := { d.admission with sink := { d.admission.sink with failing } } }

def http (d : Deployment) (app : App) (r : Request) : Deployment × Except Overflow Response × List Letter :=
  match app with
  | .participation =>
    let before := d.admission.sink.sent.length
    let (admission, response) := d.admission.serve r
    ({ d with admission }, .ok response, admission.sink.sent.drop before)
  | .analytics =>
    let (desk, response) := Analytics.serve d.now ⟨d.analytics, d.books⟩ r
    ({ d.setBooks desk.books with analytics := desk.service }, response, [])
  | .consumer => (d, .ok (Consumer.serve d.station.metrics r), [])

end Deployment

end CampaignSettlement.Service
