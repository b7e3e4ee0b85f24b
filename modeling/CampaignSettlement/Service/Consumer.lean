import CampaignSettlement.Http.Route

/-!
The consumer's side server: it tells that it is alive and shows its metrics.
-/
namespace CampaignSettlement.Service

open Http (Request Response Route)

namespace Consumer

inductive Endpoint
  | health
  | metrics
deriving DecidableEq, Repr

def routes : List (Route Endpoint) :=
  [⟨[.literal "healthz"], .get, .health⟩, ⟨[.literal "internal", .literal "metrics"], .get, .metrics⟩]

def serve (m : Metrics.Settlement) (r : Request) : Response :=
  Response.answering r <|
    match Route.resolve routes r with
    | .error response => response
    | .ok (.health, _) => .plain 200 "ok"
    | .ok (.metrics, _) => .plain 200 m.text

end Consumer

end CampaignSettlement.Service
