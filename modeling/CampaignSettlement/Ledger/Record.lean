import CampaignSettlement.Json.Time
import CampaignSettlement.Ledger.Status

/-!
The settlement log: entries as they are written, and records as the log keeps them.
-/
namespace CampaignSettlement.Ledger

open Calendar (Instant)
open Json (Value Reader RecordForm Member required)

structure Entry where
  campaign : Int
  user : Int
  result : Result
  partition : Option Int
  offset : Option Int
  sentAt : Option Int
  sequence : Int
deriving DecidableEq, Repr

structure Record where
  id : Int
  campaign : Int
  user : Int
  /-- The name of the result; a log keeps it as it was given. -/
  status : String
  partition : Option Int
  offset : Option Int
  sentAt : Option Int
  sequence : Option Int
  createdAt : Instant
deriving DecidableEq, Repr

namespace Record

def ofEntry (id : Int) (e : Entry) (createdAt : Instant) : Record :=
  ⟨id, e.campaign, e.user, e.result.name, e.partition, e.offset, e.sentAt, some e.sequence, createdAt⟩

def result? (r : Record) : Option Result := Result.ofName? r.status

def json (r : Record) : Value :=
  .obj [("id", .int r.id), ("campaignId", .int r.campaign), ("userId", .int r.user),
    ("status", .str r.status), ("brokerPartition", .option .int r.partition),
    ("brokerOffset", .option .int r.offset), ("brokerTimestamp", .option .int r.sentAt),
    ("globalSequence", .option .int r.sequence), ("createdAt", .instant r.createdAt)]

structure Draft where
  id : Option Int := none
  campaign : Option Int := none
  user : Option Int := none
  status : Option String := none
  partition : Option (Option Int) := none
  offset : Option (Option Int) := none
  sentAt : Option (Option Int) := none
  sequence : Option (Option Int) := none
  createdAt : Option Instant := none

def form : RecordForm Record where
  Draft := Draft
  name := "ParticipationRecord"
  members := [
    .place "id" Draft.id (fun d a => { d with id := some a }) .int64,
    .place "campaignId" Draft.campaign (fun d a => { d with campaign := some a }) .int64,
    .place "userId" Draft.user (fun d a => { d with user := some a }) .int64,
    .place "status" Draft.status (fun d a => { d with status := some a }) .string,
    .place "brokerPartition" Draft.partition (fun d a => { d with partition := some a }) (.option .int32),
    .place "brokerOffset" Draft.offset (fun d a => { d with offset := some a }) (.option .int64),
    .place "brokerTimestamp" Draft.sentAt (fun d a => { d with sentAt := some a }) (.option .int64),
    .place "globalSequence" Draft.sequence (fun d a => { d with sequence := some a }) (.option .int64),
    .place "createdAt" Draft.createdAt (fun d a => { d with createdAt := some a }) .instant]
  empty := {}
  finish := fun d => do
    return ⟨← required "id" d.id, ← required "campaignId" d.campaign, ← required "userId" d.user,
      ← required "status" d.status, d.partition.getD none, d.offset.getD none, d.sentAt.getD none,
      d.sequence.getD none, ← required "createdAt" d.createdAt⟩

def reader : Reader Record := form.reader

def within (start stop : Instant) (r : Record) : Bool := decide (start ≤ r.createdAt) && decide (r.createdAt < stop)

end Record

end CampaignSettlement.Ledger
