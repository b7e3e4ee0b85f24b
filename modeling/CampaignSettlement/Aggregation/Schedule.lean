import CampaignSettlement.Calendar.Instant
import CampaignSettlement.Number.Overflow

/-!
The daily schedule: every day at one time of day, the day before is aggregated.
-/
namespace CampaignSettlement.Aggregation

open Calendar (Date Instant TimeOfDay)
open Number (Overflow)

def nextRun (now : Instant) (runAt : TimeOfDay) : Except Overflow Instant :=
  let today : Instant := ⟨now.date, runAt⟩
  if now < today then .ok today
  else match today.addDays? 1 with
    | some t => .ok t
    | none => .error .laterInstant

def aggregatedDate (t : Instant) : Option Date := t.date.previous?

/-- The loop of a schedule that reads the clock at `readings`: after each reading it waits for the next run and
performs it. Before the first day that there is, there is nothing to run for. -/
def daily {τ : Type} (run : Date → τ → τ) (runAt : TimeOfDay) : List Instant → τ → Except Overflow τ
  | [], s => .ok s
  | now :: later, s => do
    let next ← nextRun now runAt
    match aggregatedDate next with
    | none => daily run runAt later s
    | some d => daily run runAt later (run d s)

end CampaignSettlement.Aggregation
