import CampaignSettlement.Ledger.Sql

/-!
The ledgers at hand. Queries always go to the database; settlement and aggregation work on the database
or on the ledger in memory.
-/
namespace CampaignSettlement.Ledger

open Calendar (Instant)

structure Books where
  memory : MemoryLedger := {}
  database : SqlLedger := {}
  onDatabase : Bool := false

namespace Books

def settle (now : Instant) : Settler Books := fun b c =>
  if b.onDatabase then
    let (database, reply) := SqlLedger.settle now b.database c
    ({ b with database }, reply)
  else
    let (memory, reply) := MemoryLedger.settle now b.memory c
    ({ b with memory }, reply)

def keepMemory {α : Type} (b : Books) (r : MemoryLedger × α) : Books × α := ({ b with memory := r.1 }, r.2)

def keepDatabase {α : Type} (b : Books) (r : SqlLedger × α) : Books × α := ({ b with database := r.1 }, r.2)

def totals : Totals Books where
  campaigns := fun b w =>
    if b.onDatabase then b.keepDatabase (SqlLedger.totals.campaigns b.database w)
    else b.keepMemory (MemoryLedger.totals.campaigns b.memory w)
  write := fun b w only =>
    if b.onDatabase then b.keepDatabase (SqlLedger.totals.write b.database w only)
    else b.keepMemory (MemoryLedger.totals.write b.memory w only)

end Books

end CampaignSettlement.Ledger
