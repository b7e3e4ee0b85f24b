import CampaignSettlement.Wire.Envelope
import CampaignSettlement.Wire.Participation

/-!
Topics. A sink takes messages for them, unless it is set to fail; a producer publishes participations.
-/
namespace CampaignSettlement.Wire

structure Letter where
  topic : String
  key : String
  payload : String
deriving DecidableEq, Repr

def Letter.json (l : Letter) : Json.Value :=
  .obj [("topic", .str l.topic), ("key", .str l.key), ("payload", .str l.payload)]

structure Sink where
  failing : Bool := false
  sent : List Letter := []
deriving DecidableEq, Repr

def sinkRefusal : String := "memory sink set to fail"

def Sink.send (s : Sink) (l : Letter) : Sink × Except String Unit :=
  if s.failing then (s, .error sinkRefusal) else ({ s with sent := s.sent ++ [l] }, .ok ())

inductive PublishFault
  | encoding (reason : String)
  | sending (reason : String)
deriving DecidableEq, Repr

namespace PublishFault

def message : PublishFault → String
  | encoding r => "serialization error: " ++ r
  | sending r => "publish failed: " ++ r

def code : PublishFault → String
  | encoding _ => "serialization_failed"
  | sending _ => "publish_failed"

end PublishFault

def participate (s : Sink) (topic : String) (p : Participation) : Sink × Except PublishFault Participation :=
  let (s, sent) := s.send ⟨topic, p.key, p.json.render⟩
  match sent with
  | .ok () => (s, .ok p)
  | .error r => (s, .error (.sending r))

end CampaignSettlement.Wire
