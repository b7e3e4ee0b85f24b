import CampaignSettlement.Json.Time
import CampaignSettlement.Ledger.Status
import CampaignSettlement.Number.Overflow

/-!
Campaigns with their stock.
-/
namespace CampaignSettlement.Ledger

open Calendar (Instant)
open Json (Value Reader RecordForm Member required)
open Number (Binary Overflow double)

structure Campaign where
  id : Int
  name : String
  totalStock : Int
  currentStock : Int
  status : String
  createdAt : Instant
  updatedAt : Instant
deriving DecidableEq, Repr

namespace Campaign

def launch (id stock : Int) (now : Instant) : Campaign :=
  ⟨id, "campaign-" ++ toString id, stock, stock, CampaignStatus.opened.name, now, now⟩

def status? (c : Campaign) : Option CampaignStatus := CampaignStatus.ofName? c.status

def usagePercent (c : Campaign) : Except Overflow Binary :=
  if c.totalStock ≤ 0 then .ok (double.ofNat 0)
  else do
    let used ← Number.sub64 c.totalStock c.currentStock
    .ok (Number.percentage (max used 0) c.totalStock)

def json (c : Campaign) : Value :=
  .obj [("id", .int c.id), ("name", .str c.name), ("totalStock", .int c.totalStock),
    ("currentStock", .int c.currentStock), ("status", .str c.status),
    ("createdAt", .instant c.createdAt), ("updatedAt", .instant c.updatedAt)]

structure Draft where
  id : Option Int := none
  name : Option String := none
  totalStock : Option Int := none
  currentStock : Option Int := none
  status : Option String := none
  createdAt : Option Instant := none
  updatedAt : Option Instant := none

def form : RecordForm Campaign where
  Draft := Draft
  name := "Campaign"
  members := [
    .place "id" Draft.id (fun d a => { d with id := some a }) .int64,
    .place "name" Draft.name (fun d a => { d with name := some a }) .string,
    .place "totalStock" Draft.totalStock (fun d a => { d with totalStock := some a }) .int64,
    .place "currentStock" Draft.currentStock (fun d a => { d with currentStock := some a }) .int64,
    .place "status" Draft.status (fun d a => { d with status := some a }) .string,
    .place "createdAt" Draft.createdAt (fun d a => { d with createdAt := some a }) .instant,
    .place "updatedAt" Draft.updatedAt (fun d a => { d with updatedAt := some a }) .instant]
  empty := {}
  finish := fun d => do
    return ⟨← required "id" d.id, ← required "name" d.name, ← required "totalStock" d.totalStock,
      ← required "currentStock" d.currentStock, ← required "status" d.status,
      ← required "createdAt" d.createdAt, ← required "updatedAt" d.updatedAt⟩

def reader : Reader Campaign := form.reader

end Campaign

end CampaignSettlement.Ledger
