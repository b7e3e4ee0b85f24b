import CampaignSettlement.Json.Time

/-!
Envelopes of the dead-letter topic. A single message is carried as `originalMessage`; a group that was
rolled back together is carried as `originalMessages` with its size.
-/
namespace CampaignSettlement.Wire

open Calendar (Instant)
open Json (Value Reader RecordForm Member required)

inductive Persistence
  | permanent
  | transient
deriving DecidableEq, Repr

namespace Persistence

def name : Persistence → String
  | permanent => "PERMANENT"
  | transient => "TRANSIENT"

def reader : Reader Persistence := .variant [("PERMANENT", permanent), ("TRANSIENT", transient)]

end Persistence

structure Envelope where
  alone : Option String
  together : Option (List String)
  size : Option Nat
  reason : String
  persistence : Persistence
  detail : String
  sealedAt : Instant
deriving DecidableEq, Repr

namespace Envelope

def single (text reason : String) (p : Persistence) (detail : String) (now : Instant) : Envelope :=
  ⟨some text, none, none, reason, p, detail, now⟩

def group (texts : List String) (reason : String) (p : Persistence) (detail : String)
    (now : Instant) : Envelope :=
  ⟨none, some texts, some texts.length, reason, p, detail, now⟩

/-- How many messages are carried: the size if there is one, else whether there is a single message. -/
def count (e : Envelope) : Nat := e.size.getD (if e.alone.isSome then 1 else 0)

def carried (e : Envelope) : List String := e.alone.toList ++ e.together.getD []

def json (e : Envelope) : Value :=
  .obj <|
    (e.alone.map fun s => ("originalMessage", Value.str s)).toList ++
    (e.together.map fun ss => ("originalMessages", Value.list .str ss)).toList ++
    (e.size.map fun n => ("batchSize", Value.nat n)).toList ++
    [("errorReason", .str e.reason), ("errorType", .str e.persistence.name),
      ("errorMessage", .str e.detail), ("timestamp", .instant e.sealedAt)]

def text (e : Envelope) : String := e.json.render

structure Draft where
  alone : Option (Option String) := none
  together : Option (Option (List String)) := none
  size : Option (Option Nat) := none
  reason : Option String := none
  persistence : Option Persistence := none
  detail : Option String := none
  sealedAt : Option Instant := none

def form : RecordForm Envelope where
  Draft := Draft
  name := "DeadLetterEnvelope"
  members := [
    .place "originalMessage" Draft.alone (fun d a => { d with alone := some a }) (.option .string) true,
    .place "originalMessages" Draft.together (fun d a => { d with together := some a })
      (.option (.list .string)) true,
    .place "batchSize" Draft.size (fun d a => { d with size := some a }) (.option .count) true,
    .place "errorReason" Draft.reason (fun d a => { d with reason := some a }) .string,
    .place "errorType" Draft.persistence (fun d a => { d with persistence := some a }) Persistence.reader,
    .place "errorMessage" Draft.detail (fun d a => { d with detail := some a }) .string,
    .place "timestamp" Draft.sealedAt (fun d a => { d with sealedAt := some a }) .instant]
  empty := {}
  finish := fun d => do
    return ⟨d.alone.getD none, d.together.getD none, d.size.getD none,
      ← required "errorReason" d.reason, ← required "errorType" d.persistence,
      ← required "errorMessage" d.detail, ← required "timestamp" d.sealedAt⟩

def reader : Reader Envelope := form.reader

end Envelope

end CampaignSettlement.Wire
