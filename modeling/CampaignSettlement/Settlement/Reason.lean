import CampaignSettlement.Wire.Envelope

/-!
Why a message is taken out of settlement.
-/
namespace CampaignSettlement.Settlement

open Wire (Persistence)

inductive Reason
  | undecodable
  | unknownCampaign
  | retriesExhausted
  | storeRejected
deriving DecidableEq, Repr

namespace Reason

def name : Reason → String
  | undecodable => "DESERIALIZATION_FAILED"
  | unknownCampaign => "CAMPAIGN_NOT_FOUND"
  | retriesExhausted => "RETRIES_EXHAUSTED"
  | storeRejected => "STORE_REJECTED"

/-- Only a store that was away may be back later. -/
def persistence : Reason → Persistence
  | retriesExhausted => .transient
  | _ => .permanent

def all : List Reason := [undecodable, unknownCampaign, retriesExhausted, storeRejected]

def ofName? (s : String) : Option Reason := all.find? (·.name == s)

end Reason

def deadLetterTopic (topic : String) : String := topic ++ ".DLQ"

structure AckFault where
  partition : Int
  detail : String
deriving DecidableEq, Repr

def AckFault.message (f : AckFault) : String :=
  "offset commit failed for partition " ++ toString f.partition ++ ": " ++ f.detail

end CampaignSettlement.Settlement
