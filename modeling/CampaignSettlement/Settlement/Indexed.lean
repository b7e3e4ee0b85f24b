import CampaignSettlement.Settlement.Batch

/-!
Settlement of a batch with its messages known by index. The messages that can be read are pending under their
indices, a transaction gives one result for each of them, and every outcome is entered at the index of its message.
An index at which nothing was entered would get an outcome that is agreed on beforehand.
-/
namespace CampaignSettlement.Settlement.Indexed

open Ledger (Entry Fault Result)
open Wire (Message Participation)

structure Pending (ms : List Message) where
  index : Fin ms.length
  event : Participation
  sequence : Option Int

inductive ItemResult
  | settled (r : Result) (sequence : Int)
  | campaignMissing

abbrev Outcomes (ms : List Message) := Vector (Option Outcome) ms.length

variable {ms : List Message}

def Outcomes.enter (outcomes : Outcomes ms) (i : Fin ms.length) (o : Outcome) : Outcomes ms :=
  outcomes.set i (some o) i.isLt

def Pending.message (p : Pending ms) : Message := ms.get p.index

def screen : List (Fin ms.length) → Outcomes ms → Program (List (Pending ms) × Outcomes ms)
  | [], outcomes => return ([], outcomes)
  | i :: is, outcomes => do
    match (ms.get i).decode with
    | .ok event =>
      let (pending, outcomes) ← screen is outcomes
      return (⟨i, event, none⟩ :: pending, outcomes)
    | .error detail =>
      let _ ← publishSingle (ms.get i) .undecodable detail
      screen is (outcomes.enter i (.deadLettered .undecodable))

def Pending.entry (p : Pending ms) (r : Result) (sequence : Int) : Entry :=
  { campaign := p.event.campaign, user := p.event.user, result := r
    partition := some p.message.receipt.partition, offset := some p.message.receipt.offset
    sentAt := p.message.receipt.sentAt, sequence }

def Pending.number (p : Pending ms) : Program Int :=
  match p.sequence with
  | some n => return n
  | none => .query .draw

def settleItem (work : Nat) (p : Pending ms) : Program (Pending ms × Except Fault ItemResult) := do
  match ← .query (.store (.known work p.event.campaign)) with
  | .error f => return (p, .error f)
  | .ok false => return (p, .ok .campaignMissing)
  | .ok true =>
    match ← .query (.store (.decrement work p.event.campaign)) with
    | .error f => return (p, .error f)
    | .ok taken =>
      let r : Result := if taken then .success else .fail
      let n ← p.number
      let p := { p with sequence := some n }
      match ← .query (.store (.append work (p.entry r n))) with
      | .error f => return (p, .error f)
      | .ok _ => return (p, .ok (.settled r n))

def apply (work : Nat) : List (Pending ms) → Program (List (Pending ms) × Except Fault (List ItemResult))
  | [] => return ([], .ok [])
  | p :: ps => do
    match ← settleItem work p with
    | (p, .error f) => return (p :: ps, .error f)
    | (p, .ok result) =>
      let (ps, results) ← apply work ps
      return (p :: ps, results.map (result :: ·))

def attempt (pending : List (Pending ms)) : Program (List (Pending ms) × Except Fault (List ItemResult)) := do
  match ← .query (.store .begin) with
  | .error f => return (pending, .error f)
  | .ok work =>
    match ← apply work pending with
    | (pending, .ok results) =>
      match ← .query (.store (.commit work)) with
      | .error f => return (pending, .error f)
      | .ok () => return (pending, .ok results)
    | (pending, .error f) =>
      let _ ← .query (.store (.rollback work))
      return (pending, .error f)

def conclude : List (Pending ms × ItemResult) → Outcomes ms → Program (Outcomes ms)
  | [], outcomes => return outcomes
  | (p, .settled r n) :: rest, outcomes => conclude rest (outcomes.enter p.index (.settled r n))
  | (p, .campaignMissing) :: rest, outcomes => do
    let _ ← publishSingle p.message .unknownCampaign ("campaign " ++ toString p.event.campaign ++ " not found")
    conclude rest (outcomes.enter p.index (.deadLettered .unknownCampaign))

def giveUp (pending : List (Pending ms)) (reason : Reason) (f : Fault) (outcomes : Outcomes ms) :
    Program (Outcomes ms) := do
  let _ ← publishGroup (pending.map Pending.message) reason f.message
  return pending.foldl (fun outcomes p => outcomes.enter p.index (.deadLettered reason)) outcomes

/-- The attempts as they are counted up: after attempt number `n` of those there may be, entry `n - 1` of the
schedule is waited for, or the greatest delay if there is no such entry. -/
def settle (b : Backoff) (n : Nat) (pending : List (Pending ms)) (outcomes : Outcomes ms) :
    Program (Outcomes ms × Nat) := do
  match ← attempt pending with
  | (pending, .ok results) => return (← conclude (pending.zip results) outcomes, n)
  | (pending, .error f) =>
    if more : f.isTransient ∧ n < b.maxAttempts then
      .query (.measure .retry)
      .query (.wait (b.delays[n - 1]?.getD b.greatest))
      settle b (n + 1) pending outcomes
    else
      return (← giveUp pending (if f.isTransient then .retriesExhausted else .storeRejected) f outcomes, n)
termination_by b.maxAttempts - n

def processBatch (fallback : Outcome) (b : Backoff) (ms : List Message) : Program Report := do
  let (pending, outcomes) ← screen (List.finRange ms.length) (.replicate ms.length none)
  let (outcomes, attempts) ←
    if pending.isEmpty then pure (outcomes, 0) else settle b 1 pending outcomes
  let outcomes := outcomes.toList.map (·.getD fallback)
  measureAll outcomes
  let current ← .query .current
  .query (.measure (.sequence current))
  .query (.measure .batchDone)
  return ⟨outcomes, attempts⟩

end CampaignSettlement.Settlement.Indexed
