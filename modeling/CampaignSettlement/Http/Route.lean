import CampaignSettlement.Http.Request

/-!
Routes: paths with a place for a number, and the method each one takes. Paths match exactly.
-/
namespace CampaignSettlement.Http

inductive Verb
  | get
  | post
deriving DecidableEq, Repr

namespace Verb

def allow : Verb → String
  | get => "GET,HEAD"
  | post => "POST"

def takes : Verb → String → Bool
  | get, method => method == "GET" || method == "HEAD"
  | post, method => method == "POST"

end Verb

inductive Piece
  | literal (s : String)
  | number
deriving DecidableEq, Repr

structure Route (ε : Type) where
  pieces : List Piece
  verb : Verb
  endpoint : ε

namespace Route

/-- The text in the place of the number, if the path matches. It may be empty, but not at the end. -/
def matchPath : List Piece → List String → Option (Option String)
  | [], [] => some none
  | [.number], [s] => if s = "" then none else some (some s)
  | .number :: ps, s :: ss => (matchPath ps ss).map fun _ => some s
  | .literal t :: ps, s :: ss => if s = t then matchPath ps ss else none
  | _, _ => none

/-- The endpoint of a request with the text of its number, or the answer where there is none. -/
def resolve {ε : Type} (routes : List (Route ε)) (r : Request) : Except Response (ε × String) :=
  match routes.findSome? fun route => (matchPath route.pieces r.segments).map (route, ·) with
  | none => .error (.empty 404)
  | some (route, raw) =>
    if route.verb.takes r.method then .ok (route.endpoint, raw.getD "")
    else .error { Response.empty 405 with allow := some route.verb.allow }

end Route

def Response.answering (r : Request) (response : Response) : Response :=
  if r.method = "HEAD" then response.headOnly else response

end CampaignSettlement.Http
