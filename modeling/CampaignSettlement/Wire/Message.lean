import CampaignSettlement.Wire.Participation

/-!
A message as the transport hands it over, before it is read.
-/
namespace CampaignSettlement.Wire

structure Message where
  key : Option String
  payload : List UInt8
  receipt : Receipt
deriving DecidableEq, Repr

namespace Message

def decode (m : Message) : Except String Participation :=
  match Json.document Participation.reader m.payload with
  | .ok p => .ok p
  | .error f => .error ("payload could not be decoded: " ++ f.message m.payload)

def text (m : Message) : String := Text.Utf8.lossy m.payload

def routingKey (m : Message) : String := m.key.getD (toString m.receipt.partition)

end Message

end CampaignSettlement.Wire
