import CampaignSettlement.Ledger.Injection
import CampaignSettlement.Ledger.Memory

/-!
A ledger of three tables behind a database link. A transaction works on the tables themselves and keeps
what they were when it began; a rollback puts that back. Record ids are never given out twice. Times are
kept to the microsecond.
-/
namespace CampaignSettlement.Ledger

open Calendar (Date Instant)

structure Tables where
  campaigns : Table Int Campaign := []
  records : List Record := []
  stats : Table StatKey DailyStat := []
deriving Repr

structure StatusCounts where
  successes : Int
  fails : Int
deriving DecidableEq, Repr

namespace Tables

def fetchCampaign (t : Tables) (id : Int) : Option Campaign := t.campaigns.get? id

def recordsOf (t : Tables) (campaign : Int) : List Record :=
  (t.records.filter (·.campaign == campaign)).mergeSort (fun a b => decide (a.id ≤ b.id))

/-- Created in `[start, stop)`, newest first, at most `limit`. -/
def recordsBetween (t : Tables) (start stop : Instant) (limit : Nat) : List Record :=
  let newer (a b : Record) : Bool :=
    decide (b.createdAt < a.createdAt) || (a.createdAt.rank == b.createdAt.rank && decide (b.id ≤ a.id))
  ((t.records.filter (Record.within start stop)).mergeSort newer).take limit

def maxSequence (t : Tables) : Option Int := (t.records.filterMap Record.sequence).max?

def statusCounts (t : Tables) (campaign : Int) : StatusCounts :=
  let own := t.records.filter (·.campaign == campaign)
  ⟨own.countP (·.status == "SUCCESS"), own.countP (·.status == "FAIL")⟩

def statsOn (t : Tables) (d : Date) : List DailyStat :=
  t.stats.values.filter fun s => decide (s.date = d)

def statsOf (t : Tables) (campaign : Int) (first last : Date) : List DailyStat :=
  t.stats.values.filter fun s => s.campaign == campaign && decide (first ≤ s.date) && decide (s.date ≤ last)

def campaignsIn (t : Tables) (w : Window) : List Int :=
  (((t.records.filter fun r => w.holds r.createdAt).map Record.campaign).eraseDups).mergeSort
    (fun a b => decide (a ≤ b))

def totalsIn (t : Tables) (w : Window) (only : Option Int) : List DailyStat :=
  let covered := t.records.filter fun r => w.holds r.createdAt && only.all (r.campaign == ·)
  ((covered.map Record.campaign).eraseDups).map fun id =>
    let own := covered.filter (·.campaign == id)
    ⟨id, w.date, own.countP (·.status == "SUCCESS"), own.countP (·.status == "FAIL")⟩

def upsert (t : Tables) (rows : List DailyStat) : Tables :=
  { t with stats := rows.foldl (fun s row => s.put ⟨row.campaign, row.date⟩ row) t.stats }

end Tables

inductive Link
  | up
  | down (reason : String)
  | closed
deriving DecidableEq, Repr

inductive Statement
  | settling (kind : CallKind)
  | campaign
  | records
  | raw
  | maxSequence
  | counts
  | distinct
  | upsert
  | daily
  | range
deriving DecidableEq, Repr

namespace Statement

def named : List (String × Statement) :=
  [("campaign", campaign), ("records", records), ("raw", raw), ("max", maxSequence), ("counts", counts),
    ("distinct", distinct), ("upsert", upsert), ("daily", daily), ("range", range)] ++
    CallKind.named.map fun (name, kind) => (name, settling kind)

def ofName? (s : String) : Option Statement := named.lookup s

end Statement

structure Refusal where
  state : String
  reason : String
deriving DecidableEq, Repr

structure SqlLedger where
  tables : Tables := {}
  lastRecord : Int := 0
  works : Table Nat Tables := []
  lastWork : Nat := 0
  link : Link := .up
  injections : List (Injection Statement Refusal) := []
deriving Repr

namespace SqlLedger

def pass (l : SqlLedger) (s : Statement) : SqlLedger × Except Fault Unit :=
  match l.link with
  | .closed => (l, .error DatabaseFault.poolClosed.toFault)
  | .down reason => (l, .error (DatabaseFault.io reason).toFault)
  | .up =>
    match Injection.strike s l.injections with
    | (some r, left) =>
      ({ l with injections := left }, .error (DatabaseFault.statement (some r.state) r.reason).toFault)
    | (none, left) => ({ l with injections := left }, .ok ())

def query {α : Type} (l : SqlLedger) (s : Statement) (f : Tables → α) : SqlLedger × Except Fault α :=
  let (l, passed) := l.pass s
  (l, passed.map fun _ => f l.tables)

def notOpen : Fault := (DatabaseFault.protocol "transaction is not open").toFault

def rollback (l : SqlLedger) (work : Nat) : SqlLedger :=
  match l.works.get? work with
  | some before => { l with tables := before, works := l.works.filter (·.1 != work) }
  | none => l

/-- The one constraint that is checked: a record's campaign exists. -/
def unknownCampaign : Fault :=
  (DatabaseFault.statement (some "23503") "insert violates foreign key constraint").toFault

def takeUnit (now : Instant) (c : Campaign) : Campaign :=
  { c with currentStock := c.currentStock - 1, updatedAt := now.toMicros }

def answer (now : Instant) (l : SqlLedger) : (c : StoreCall) → SqlLedger × c.Reply
  | .begin =>
    let work := l.lastWork + 1
    ({ l with lastWork := work, works := l.works.put work l.tables }, .ok work)
  | .known _ campaign => (l, .ok (l.tables.campaigns.get? campaign).isSome)
  | .decrement _ campaign =>
    match l.tables.campaigns.get? campaign with
    | none => (l, .ok false)
    | some c =>
      if 0 < c.currentStock then
        let campaigns := l.tables.campaigns.update campaign (takeUnit now)
        ({ l with tables := { l.tables with campaigns } }, .ok true)
      else (l, .ok false)
  | .append _ e =>
    let id := l.lastRecord + 1
    let l := { l with lastRecord := id }
    if (l.tables.campaigns.get? e.campaign).isSome then
      let records := l.tables.records ++ [.ofEntry id e now.toMicros]
      ({ l with tables := { l.tables with records } }, .ok id)
    else (l, .error unknownCampaign)
  | .commit work =>
    if (l.works.get? work).isSome then ({ l with works := l.works.filter (·.1 != work) }, .ok ())
    else (l, .error notOpen)
  | .rollback work => (l.rollback work, .ok ())

/-- One call of settlement. A commit or rollback that fails has rolled back. -/
def settle (now : Instant) : Settler SqlLedger := fun l c =>
  let (l, passed) := l.pass (.settling c.kind)
  match passed with
  | .ok () => l.answer now c
  | .error f =>
    match c with
    | .commit work | .rollback work => (l.rollback work, .error f)
    | _ => (l, .error f)

def totals : Totals SqlLedger where
  campaigns := fun l w => l.query .distinct (·.campaignsIn w)
  write := fun l w only =>
    let (l, passed) := l.pass .upsert
    match passed with
    | .error f => (l, .error f)
    | .ok () =>
      let rows := l.tables.totalsIn w only
      ({ l with tables := l.tables.upsert rows }, .ok rows.length)

def fetchCampaign (l : SqlLedger) (id : Int) : SqlLedger × Except Fault (Option Campaign) :=
  l.query .campaign (·.fetchCampaign id)

def recordsOf (l : SqlLedger) (campaign : Int) : SqlLedger × Except Fault (List Record) :=
  l.query .records (·.recordsOf campaign)

def recordsBetween (l : SqlLedger) (start stop : Instant) (limit : Nat) :
    SqlLedger × Except Fault (List Record) :=
  l.query .raw (·.recordsBetween start stop limit)

def maxSequence (l : SqlLedger) : SqlLedger × Except Fault (Option Int) := l.query .maxSequence (·.maxSequence)

def statusCounts (l : SqlLedger) (campaign : Int) : SqlLedger × Except Fault StatusCounts :=
  l.query .counts (·.statusCounts campaign)

def statsOn (l : SqlLedger) (d : Date) : SqlLedger × Except Fault (List DailyStat) := l.query .daily (·.statsOn d)

def statsOf (l : SqlLedger) (campaign : Int) (first last : Date) : SqlLedger × Except Fault (List DailyStat) :=
  l.query .range (·.statsOf campaign first last)

def inject (l : SqlLedger) (i : Injection Statement Refusal) : SqlLedger :=
  { l with injections := l.injections ++ [i] }

def close (l : SqlLedger) : SqlLedger := { l with link := .closed }

def insert (l : SqlLedger) (campaigns : List Campaign) (records : List Record) (stats : List DailyStat) :
    SqlLedger :=
  { l with
    tables :=
      { campaigns := campaigns.foldl (fun t c => t.put c.id c) l.tables.campaigns
        records := l.tables.records ++ records
        stats := (l.tables.upsert stats).stats }
    lastRecord := records.foldl (fun n r => max n r.id) l.lastRecord }

end SqlLedger

end CampaignSettlement.Ledger
