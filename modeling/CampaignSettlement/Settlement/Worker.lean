import CampaignSettlement.Settlement.Batch

/-!
What a partition's worker does with a batch it has received: it takes the batch out of the queue's
account, settles it, and acknowledges its greatest offset, whatever the outcomes were.
-/
namespace CampaignSettlement.Settlement

open Wire (Message)

def lastOffset (batch : List Message) : Option Int := (batch.map fun m => m.receipt.offset).max?

/-- Whether the worker goes on after it. -/
def acknowledge (partition : Int) (batch : List Message) : Program Bool := do
  match lastOffset batch with
  | none => return true
  | some offset =>
    match ← .query (.ack partition offset) with
    | .done => return true
    | .failed _ =>
      .query (.measure .ackFailure)
      return true
    | .broken => return false

def round (b : Backoff) (partition : Int) (batch : List Message) : Program Bool := do
  .query (.account partition batch.length)
  let _ ← processBatch b batch
  acknowledge partition batch

def reportedRound (b : Backoff) (partition : Int) (batch : List Message) : Program (Report × Bool) := do
  .query (.account partition batch.length)
  let report ← processBatch b batch
  let goesOn ← acknowledge partition batch
  return (report, goesOn)

theorem round_eq (b : Backoff) (partition : Int) (batch : List Message) :
    round b partition batch = (reportedRound b partition batch).bind fun r => .done r.2 := by
  have same (p : Program Bool) : p = p.bind .done := by
    induction p with
    | done a => rfl
    | ask q next ih => exact congrArg (Program.ask q) (funext ih)
  simp only [round, reportedRound, Program.bind_eq, Program.pure_eq, Program.bind_assoc, Program.bind_done]
  rw [← same (acknowledge partition batch)]

def work (b : Backoff) (partition : Int) : List (List Message) → Program (List Report)
  | [] => return []
  | batch :: rest => do
    let (report, goesOn) ← reportedRound b partition batch
    if goesOn then return report :: (← work b partition rest) else return [report]

end CampaignSettlement.Settlement
