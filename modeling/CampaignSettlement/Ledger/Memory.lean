import CampaignSettlement.Ledger.Campaign
import CampaignSettlement.Ledger.DailyStat
import CampaignSettlement.Ledger.Store
import CampaignSettlement.Ledger.Table

/-!
A ledger in memory. A unit of stock leaves its campaign when it is taken and comes back when the
transaction is rolled back; records join the log when their transaction commits. Failures can be armed
ahead of time.
-/
namespace CampaignSettlement.Ledger

open Calendar (Date Instant)

inductive Countdown
  | times (n : Nat)
  | forever
deriving DecidableEq, Repr

namespace Countdown

/-- The greatest 32-bit count never runs out. -/
def ofNat (n : Nat) : Countdown := if n = 4294967295 then forever else times n

def strike : Countdown → Bool × Countdown
  | times 0 => (false, times 0)
  | times (n + 1) => (true, times n)
  | forever => (true, forever)

end Countdown

/-- An open transaction: the campaigns whose stock it took, one mention a unit, and the entries it wrote
under their record ids. -/
structure Work where
  taken : List Int
  written : List (Int × Entry)
deriving DecidableEq, Repr

structure StatKey where
  campaign : Int
  date : Date
deriving DecidableEq, Repr

instance : Ord StatKey := ⟨fun a b => (compare a.campaign b.campaign).then (compare a.date.day b.date.day)⟩

structure Mishaps where
  begins : Countdown := .times 0
  appends : Countdown := .times 0
  rejectAppends : Bool := false
  totalsAway : Bool := false
  lockedTotals : List Int := []
deriving DecidableEq, Repr

structure MemoryLedger where
  campaigns : Table Int Campaign := []
  /-- In the order in which they were committed. -/
  records : List Record := []
  stats : Table StatKey DailyStat := []
  lastRecord : Int := 0
  /-- The time of new records, if it is pinned. -/
  clock : Option Instant := none
  works : Table Nat Work := []
  lastWork : Nat := 0
  begins : Nat := 0
  mishaps : Mishaps := {}
deriving Repr

namespace MemoryLedger

def addCampaign (l : MemoryLedger) (id stock : Int) (now : Instant) : MemoryLedger :=
  { l with campaigns := l.campaigns.put id (.launch id stock now) }

def campaign? (l : MemoryLedger) (id : Int) : Option Campaign := l.campaigns.get? id

def recordsOf (l : MemoryLedger) (campaign : Int) : List Record :=
  l.records.filter (·.campaign == campaign)

def insertRecord (l : MemoryLedger) (r : Record) : MemoryLedger := { l with records := l.records ++ [r] }

def takeUnit (c : Campaign) : Campaign := { c with currentStock := c.currentStock - 1 }

def returnUnit (c : Campaign) : Campaign := { c with currentStock := c.currentStock + 1 }

def notOpen : Fault := .rejected "transaction is not open"

def begin (l : MemoryLedger) : MemoryLedger × Except Fault Nat :=
  let (struck, left) := l.mishaps.begins.strike
  let l := { l with begins := l.begins + 1, mishaps := { l.mishaps with begins := left } }
  if struck then (l, .error (.unavailable "connection refused"))
  else
    let work := l.lastWork + 1
    ({ l with lastWork := work, works := l.works.put work ⟨[], []⟩ }, .ok work)

def decrement (l : MemoryLedger) (work : Nat) (campaign : Int) : MemoryLedger × Except Fault Bool :=
  match l.works.get? work, l.campaigns.get? campaign with
  | none, _ => (l, .error notOpen)
  | some _, none => (l, .ok false)
  | some w, some c =>
    if c.currentStock ≤ 0 then (l, .ok false)
    else
      ({ l with
          campaigns := l.campaigns.put campaign (takeUnit c)
          works := l.works.put work { w with taken := w.taken ++ [campaign] } }, .ok true)

def append (l : MemoryLedger) (work : Nat) (e : Entry) : MemoryLedger × Except Fault Int :=
  let (struck, left) := l.mishaps.appends.strike
  let l := { l with mishaps := { l.mishaps with appends := left } }
  if struck then (l, .error (.unavailable "connection reset"))
  else if l.mishaps.rejectAppends then (l, .error (.rejected "check constraint violated"))
  else match l.works.get? work with
    | none => (l, .error notOpen)
    | some w =>
      let id := l.lastRecord + 1
      ({ l with
          lastRecord := id
          works := l.works.put work { w with written := w.written ++ [(id, e)] } }, .ok id)

def close (l : MemoryLedger) (work : Nat) : MemoryLedger :=
  { l with works := l.works.filter (·.1 != work) }

def commit (l : MemoryLedger) (now : Instant) (work : Nat) : MemoryLedger × Except Fault Unit :=
  match l.works.get? work with
  | none => (l, .error notOpen)
  | some w =>
    let created := l.clock.getD now
    ({ l.close work with records := l.records ++ w.written.map fun (id, e) => .ofEntry id e created }, .ok ())

def rollback (l : MemoryLedger) (work : Nat) : MemoryLedger × Except Fault Unit :=
  match l.works.get? work with
  | none => (l, .error notOpen)
  | some w =>
    ({ l.close work with
        campaigns := w.taken.foldl (fun t id => t.update id returnUnit) l.campaigns }, .ok ())

def settle (now : Instant) : Settler MemoryLedger
  | l, .begin => l.begin
  | l, .known _ campaign => (l, .ok (l.campaigns.get? campaign).isSome)
  | l, .decrement work campaign => l.decrement work campaign
  | l, .append work e => l.append work e
  | l, .commit work => l.commit now work
  | l, .rollback work => l.rollback work

def campaignsIn (w : Window) (rs : List Record) : List Int :=
  Table.keys <| (rs.filter fun r => w.holds r.createdAt).foldl (fun t r => t.put r.campaign ()) []

structure Count where
  successes : Int
  fails : Int
deriving DecidableEq, Repr

def Count.add (c : Count) (r : Record) : Count :=
  match r.result? with
  | some .success => { c with successes := c.successes + 1 }
  | some .fail => { c with fails := c.fails + 1 }
  | none => c

def countIn (w : Window) (only : Option Int) (rs : List Record) : Table Int Count :=
  let covered := rs.filter fun r => w.holds r.createdAt && only.all (r.campaign == ·)
  covered.foldl (fun t r => t.put r.campaign (((t.get? r.campaign).getD ⟨0, 0⟩).add r)) []

def totalsFault (l : MemoryLedger) (only : Option Int) : Option Fault :=
  if l.mishaps.totalsAway then some (.unavailable "stats store unavailable")
  else if only.elim (!l.mishaps.lockedTotals.isEmpty) l.mishaps.lockedTotals.contains then
    some (.unavailable "lock not available")
  else none

/-- Rows of the window's date are overwritten, never added to. -/
def writeTotals (l : MemoryLedger) (w : Window) (only : Option Int) : MemoryLedger × Except Fault Nat :=
  match l.totalsFault only with
  | some f => (l, .error f)
  | none =>
    let counts := countIn w only l.records
    let write (t : Table StatKey DailyStat) (row : Int × Count) : Table StatKey DailyStat :=
      t.put ⟨row.1, w.date⟩ ⟨row.1, w.date, row.2.successes, row.2.fails⟩
    ({ l with stats := counts.foldl write l.stats }, .ok counts.length)

def totals : Totals MemoryLedger where
  campaigns := fun l w =>
    (l, if l.mishaps.totalsAway then .error (.unavailable "stats store unavailable")
        else .ok (campaignsIn w l.records))
  write := writeTotals

end MemoryLedger

end CampaignSettlement.Ledger
