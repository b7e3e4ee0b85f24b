import CampaignSettlement.Http.Route
import CampaignSettlement.Wire.Sink

/-!
The admission service: it takes a user's request to take part in a campaign, checks both numbers, and
publishes one event. Settlement happens elsewhere.
-/
namespace CampaignSettlement.Service

open Http (ErrorWatch Piece Problem Request Response Route)
open Wire (Participation Sink)

structure Admission where
  topic : String
  sink : Sink := {}
  metrics : Metrics.Admission := {}
  watch : ErrorWatch := { service := "participation-service" }

namespace Admission

inductive Endpoint
  | participate
  | health
  | metrics
deriving DecidableEq, Repr

def routes : List (Route Endpoint) :=
  [⟨[.literal "campaigns", .number, .literal "participations"], .post, .participate⟩,
    ⟨[.literal "healthz"], .get, .health⟩,
    ⟨[.literal "metrics"], .get, .metrics⟩]

def count (a : Admission) (outcome : String) : Admission :=
  { a with metrics := { a.metrics with requests := a.metrics.requests.add [outcome] 1 } }

def publish (a : Admission) (p : Participation) : Admission × Except Wire.PublishFault Participation :=
  let (sink, sent) := Wire.participate a.sink a.topic p
  ({ a with sink }, sent)

/-- Both numbers have to be positive. -/
def participate (a : Admission) (campaign user : Int) : Admission × Response :=
  if campaign ≤ 0 then
    (a.count "rejected", (Problem.badRequest "invalid_campaign_id" "campaignId must be positive").response)
  else if user ≤ 0 then
    (a.count "rejected", (Problem.badRequest "invalid_user_id" "userId must be positive").response)
  else
    match a.publish ⟨campaign, user⟩ with
    | (a, .ok p) => (a.count "admitted", .json 202 p.json)
    | (a, .error f) =>
      (a.count "failed", (⟨.internal, f.code, none, some f.message⟩ : Problem).response)

def metricsText (a : Admission) : String :=
  Metrics.exposition (Metrics.withHttpErrors a.metrics.families (some a.watch.counts))

def handle (a : Admission) (r : Request) : Admission × Response :=
  match Route.resolve routes r with
  | .error response => (a, response)
  | .ok (.health, _) => (a, .plain 200 "ok")
  | .ok (.metrics, _) => (a, .plain 200 a.metricsText)
  | .ok (.participate, raw) =>
    match Http.pathNumber raw with
    | .error response => (a, response)
    | .ok campaign =>
      match Http.bodyValue Wire.Request.reader r with
      | .error response => (a, response)
      | .ok request => a.participate campaign request.user

def serve (a : Admission) (r : Request) : Admission × Response :=
  let (a, response) := a.handle r
  let response := response.answering r
  ({ a with watch := a.watch.observe response }, response)

end Admission

end CampaignSettlement.Service
