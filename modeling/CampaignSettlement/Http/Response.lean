import CampaignSettlement.Json.Value
import CampaignSettlement.Metrics.Services
import CampaignSettlement.Text.Utf8

/-!
Responses, the problems that handlers answer with, and the count of error responses by their code.
-/
namespace CampaignSettlement.Http

open Json (Value)
open Metrics (HttpErrors)

inductive Body
  | text (s : String)
  | json (v : Value)

structure Response where
  status : Nat
  errorCode : Option (List UInt8) := none
  contentType : Option String := none
  allow : Option String := none
  body : Body := .text ""

namespace Response

def plain (status : Nat) (s : String) : Response :=
  { status, contentType := some "text/plain; charset=utf-8", body := .text s }

def json (status : Nat) (v : Value) : Response :=
  { status, contentType := some "application/json", body := .json v }

def empty (status : Nat) : Response := { status }

def headOnly (r : Response) : Response := { r with body := .text "" }

end Response

def isHeaderByte (b : UInt8) : Bool := b == 9 || (32 ≤ b && b != 127)

inductive ProblemKind
  | badRequest
  | notFound
  | internal
deriving DecidableEq, Repr

def ProblemKind.status : ProblemKind → Nat
  | badRequest => 400
  | notFound => 404
  | internal => 500

structure Problem where
  kind : ProblemKind
  code : String
  trace : Option String
  message : Option String
deriving DecidableEq, Repr

namespace Problem

def badRequest (code message : String) : Problem := ⟨.badRequest, code, none, some message⟩

def notFound (code : String) : Problem := ⟨.notFound, code, none, none⟩

def internal (message : String) (trace : Option String) : Problem :=
  ⟨.internal, "internal_error", trace, some message⟩

def json (p : Problem) : Value :=
  .obj <| [("code", .str p.code)] ++ (p.trace.map fun t => ("traceId", Value.str t)).toList ++
    (if p.kind = .notFound then [] else (p.message.map fun m => ("message", Value.str m)).toList)

/-- The code is left out of the headers when it cannot stand there. -/
def response (p : Problem) : Response :=
  let bytes := Text.Utf8.encode p.code
  { Response.json p.kind.status p.json with errorCode := if bytes.all isHeaderByte then some bytes else none }

end Problem

/-- Counts the error responses of a service. The first forty codes keep their own label. -/
structure ErrorWatch where
  service : String
  seen : List String := []
  counts : HttpErrors := []
deriving DecidableEq, Repr

namespace ErrorWatch

def labelLimit : Nat := 40

def otherLabel : String := "other"

def isVisible (b : UInt8) : Bool := b == 9 || (32 ≤ b && b < 127)

def codeOf (r : Response) : String :=
  match r.errorCode with
  | some bytes => if bytes.all isVisible then Text.Utf8.lossy bytes else "none"
  | none => "none"

def label (seen : List String) (code : String) : String × List String :=
  if seen.contains code then (code, seen)
  else if seen.length < labelLimit then (code, seen ++ [code])
  else (otherLabel, seen)

def observe (w : ErrorWatch) (r : Response) : ErrorWatch :=
  if r.status < 400 then w
  else
    let (label, seen) := label w.seen (codeOf r)
    { w with seen, counts := w.counts.count w.service label (toString r.status) 1 }

end ErrorWatch

end CampaignSettlement.Http
