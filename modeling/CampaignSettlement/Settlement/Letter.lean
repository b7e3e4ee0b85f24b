import CampaignSettlement.Settlement.Program
import CampaignSettlement.Wire.Message

/-!
Dead letters. A letter that cannot be published is counted, and settlement goes on all the same.
-/
namespace CampaignSettlement.Settlement

open Wire (Envelope Message)

def publish (key : String) (reason : Reason) (e : Envelope) : Program Bool := do
  .query (.measure (.letters reason e.count))
  let taken ← .query (.publish key e)
  unless taken do .query (.measure .publishFailure)
  return taken

def publishSingle (m : Message) (reason : Reason) (detail : String) : Program Bool := do
  let now ← .query .now
  publish m.routingKey reason (.single m.text reason.name reason.persistence detail now)

def publishGroup (ms : List Message) (reason : Reason) (detail : String) : Program Bool :=
  match ms with
  | [] => return true
  | [m] => publishSingle m reason detail
  | m :: _ => do
    let now ← .query .now
    publish m.routingKey reason (.group (ms.map Message.text) reason.name reason.persistence detail now)

end CampaignSettlement.Settlement
