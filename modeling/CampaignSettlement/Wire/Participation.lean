import CampaignSettlement.Json.Reader

/-!
The event of one participation, as admission publishes it and settlement reads it, and the receipt that
the transport adds to a message.
-/
namespace CampaignSettlement.Wire

open Json (Value Reader RecordForm Member required)

structure Participation where
  campaign : Int
  user : Int
deriving DecidableEq, Repr

namespace Participation

/-- All requests of one campaign share an order, so the campaign is the key. -/
def key (p : Participation) : String := toString p.campaign

def json (p : Participation) : Value := .obj [("campaignId", .int p.campaign), ("userId", .int p.user)]

structure Draft where
  campaign : Option Int := none
  user : Option Int := none

def form : RecordForm Participation where
  Draft := Draft
  name := "ParticipationEvent"
  members := [
    .place "campaignId" Draft.campaign (fun d a => { d with campaign := some a }) .int64,
    .place "userId" Draft.user (fun d a => { d with user := some a }) .int64]
  empty := {}
  finish := fun d => do return ⟨← required "campaignId" d.campaign, ← required "userId" d.user⟩

def reader : Reader Participation := form.reader

end Participation

structure Receipt where
  partition : Int
  offset : Int
  sentAt : Option Int
deriving DecidableEq, Repr

namespace Receipt

def json (r : Receipt) : Value :=
  .obj [("partition", .int r.partition), ("offset", .int r.offset), ("timestampMs", .option .int r.sentAt)]

structure Draft where
  partition : Option Int := none
  offset : Option Int := none
  sentAt : Option (Option Int) := none

def form : RecordForm Receipt where
  Draft := Draft
  name := "BrokerMetadata"
  members := [
    .place "partition" Draft.partition (fun d a => { d with partition := some a }) .int32,
    .place "offset" Draft.offset (fun d a => { d with offset := some a }) .int64,
    .place "timestampMs" Draft.sentAt (fun d a => { d with sentAt := some a }) (.option .int64)]
  empty := {}
  finish := fun d => do
    return ⟨← required "partition" d.partition, ← required "offset" d.offset, d.sentAt.getD none⟩

def reader : Reader Receipt := form.reader

end Receipt

structure Request where
  user : Int
deriving DecidableEq, Repr

namespace Request

structure Draft where
  user : Option Int := none

def form : RecordForm Request where
  Draft := Draft
  name := "ParticipationRequest"
  members := [.place "userId" Draft.user (fun d a => { d with user := some a }) .int64]
  empty := {}
  finish := fun d => do return ⟨← required "userId" d.user⟩

def reader : Reader Request := form.reader

end Request

end CampaignSettlement.Wire
