import CampaignSettlement.Ledger.Injection
import CampaignSettlement.Ledger.Memory

/-!
A ledger in memory whose failures may be armed anew at any time.
-/
namespace CampaignSettlement.Ledger

open Calendar (Instant)

inductive Arming
  | injections (js : List (Injection CallKind Fault))
  | mishaps (m : Mishaps)
  | clock (t : Option Instant)
deriving DecidableEq, Repr

namespace Faulty

def settleMemory (now : Instant) : Settler (Faulty MemoryLedger) := settle (MemoryLedger.settle now)

def arm : Arming → Faulty MemoryLedger → Faulty MemoryLedger
  | .injections js, f => { f with injections := js }
  | .mishaps m, f => { f with inner := { f.inner with mishaps := m } }
  | .clock t, f => { f with inner := { f.inner with clock := t } }

end Faulty

structure Launch where
  id : Int
  stock : Int
  time : Instant
deriving DecidableEq, Repr

/-- A ledger to which the campaigns have been added, and nothing else has been done. -/
def MemoryLedger.opening (launches : List Launch) : MemoryLedger :=
  launches.foldl (fun l c => l.addCampaign c.id c.stock c.time) {}

end CampaignSettlement.Ledger
