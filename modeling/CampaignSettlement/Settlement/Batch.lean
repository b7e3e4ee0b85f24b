import CampaignSettlement.Settlement.Letter

/-!
Settlement of a batch. Messages that cannot be read are dead-lettered one by one. All others share one
transaction: for each, the campaign is looked up, a unit of its stock is taken if there is one, and the
result is appended to the log under a sequence of its own. A transaction that fails for the time being is
rolled back and tried again; a message keeps its sequence over all attempts. When the attempts run out,
or the store refuses, the group is dead-lettered as one.
-/
namespace CampaignSettlement.Settlement

open Ledger (Entry Fault Result)
open Wire (Message Participation)

inductive Outcome
  | settled (r : Result) (sequence : Int)
  | deadLettered (reason : Reason)
deriving DecidableEq, Repr

/-- A readable message on its way, with the sequence it has drawn. -/
structure Ticket where
  message : Message
  event : Participation
  sequence : Option Int
deriving DecidableEq, Repr

/-- The place of a message in its batch before the transaction is done. -/
inductive Slot
  | refused (reason : Reason)
  | waiting (t : Ticket)
deriving DecidableEq, Repr

/-- The place of a message after all calls for it succeeded. -/
inductive Item
  | refused (reason : Reason)
  | settled (r : Result) (sequence : Int)
  | unknown (t : Ticket)
deriving DecidableEq, Repr

structure Report where
  outcomes : List Outcome
  attempts : Nat
deriving DecidableEq, Repr

def Outcome.isDeadLettered : Outcome → Bool
  | deadLettered _ => true
  | settled .. => false

def Report.deadLettered (r : Report) : Nat := r.outcomes.countP Outcome.isDeadLettered

def Outcome.measure : Outcome → Measure
  | settled r _ => .settled r
  | deadLettered _ => .deadLettered

namespace Slot

def ticket? : Slot → Option Ticket
  | waiting t => some t
  | refused _ => none

def givenUp (reason : Reason) : Slot → Outcome
  | refused r => .deadLettered r
  | waiting _ => .deadLettered reason

end Slot

def screen : List Message → Program (List Slot)
  | [] => return []
  | m :: ms => do
    let slot ← match m.decode with
      | .ok e => pure (Slot.waiting ⟨m, e, none⟩)
      | .error detail => do
        let _ ← publishSingle m .undecodable detail
        pure (Slot.refused .undecodable)
    return slot :: (← screen ms)

def Ticket.entry (t : Ticket) (r : Result) (sequence : Int) : Entry :=
  { campaign := t.event.campaign, user := t.event.user, result := r
    partition := some t.message.receipt.partition, offset := some t.message.receipt.offset
    sentAt := t.message.receipt.sentAt, sequence }

def Ticket.number (t : Ticket) : Program Int :=
  match t.sequence with
  | some n => return n
  | none => .query .draw

def settleTicket (work : Nat) (t : Ticket) : Program (Ticket × Except Fault Item) := do
  match ← .query (.store (.known work t.event.campaign)) with
  | .error f => return (t, .error f)
  | .ok false => return (t, .ok (.unknown t))
  | .ok true =>
    match ← .query (.store (.decrement work t.event.campaign)) with
    | .error f => return (t, .error f)
    | .ok taken =>
      let r : Result := if taken then .success else .fail
      let n ← t.number
      let t := { t with sequence := some n }
      match ← .query (.store (.append work (t.entry r n))) with
      | .error f => return (t, .error f)
      | .ok _ => return (t, .ok (.settled r n))

/-- The calls for all slots in order, up to the first that fails. The slots come back with their
sequences. -/
def apply (work : Nat) : List Slot → Program (List Slot × Except Fault (List Item))
  | [] => return ([], .ok [])
  | .refused r :: slots => do
    let (slots, result) ← apply work slots
    return (.refused r :: slots, result.map (.refused r :: ·))
  | .waiting t :: slots => do
    match ← settleTicket work t with
    | (t, .error f) => return (.waiting t :: slots, .error f)
    | (t, .ok item) =>
      let (slots, result) ← apply work slots
      return (.waiting t :: slots, result.map (item :: ·))

def attempt (slots : List Slot) : Program (List Slot × Except Fault (List Item)) := do
  match ← .query (.store .begin) with
  | .error f => return (slots, .error f)
  | .ok work =>
    match ← apply work slots with
    | (slots, .ok items) =>
      match ← .query (.store (.commit work)) with
      | .error f => return (slots, .error f)
      | .ok () => return (slots, .ok items)
    | (slots, .error f) =>
      let _ ← .query (.store (.rollback work))
      return (slots, .error f)

def conclude : List Item → Program (List Outcome)
  | [] => return []
  | .refused r :: items => return .deadLettered r :: (← conclude items)
  | .settled r n :: items => return .settled r n :: (← conclude items)
  | .unknown t :: items => do
    let _ ← publishSingle t.message .unknownCampaign ("campaign " ++ toString t.event.campaign ++ " not found")
    return .deadLettered .unknownCampaign :: (← conclude items)

def giveUp (slots : List Slot) (reason : Reason) (f : Fault) : Program (List Outcome) := do
  let _ ← publishGroup ((slots.filterMap Slot.ticket?).map Ticket.message) reason f.message
  return slots.map (Slot.givenUp reason)

/-- Attempt number `n`, with `left` more to follow if need be, the first of them after `delay`. -/
def settle (b : Backoff) : (left n : Nat) → (delay : Duration) → List Slot → Program Report
  | left, n, delay, slots => do
    match ← attempt slots with
    | (_, .ok items) => return ⟨← conclude items, n⟩
    | (slots, .error f) =>
      if f.isTransient then
        match left with
        | 0 => return ⟨← giveUp slots .retriesExhausted f, n⟩
        | left + 1 =>
          .query (.measure .retry)
          .query (.wait delay)
          settle b left (n + 1) (b.next delay) slots
      else return ⟨← giveUp slots .storeRejected f, n⟩

def measureAll : List Outcome → Program Unit
  | [] => return ()
  | o :: os => do
    .query (.measure o.measure)
    measureAll os

def processBatch (b : Backoff) (messages : List Message) : Program Report := do
  let slots ← screen messages
  let report ←
    if (slots.filterMap Slot.ticket?).isEmpty then pure ⟨slots.map (Slot.givenUp .storeRejected), 0⟩
    else settle b b.retries 1 b.initial slots
  measureAll report.outcomes
  let current ← .query .current
  .query (.measure (.sequence current))
  .query (.measure .batchDone)
  return report

end CampaignSettlement.Settlement
