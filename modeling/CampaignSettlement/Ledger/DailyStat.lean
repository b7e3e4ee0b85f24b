import CampaignSettlement.Json.Time
import CampaignSettlement.Number.Overflow

/-!
Daily totals of a campaign.
-/
namespace CampaignSettlement.Ledger

open Calendar (Date)
open Json (Value Reader RecordForm Member required)
open Number (Binary Overflow double)

structure DailyStat where
  campaign : Int
  date : Date
  successes : Int
  fails : Int
deriving DecidableEq, Repr

namespace DailyStat

def total (s : DailyStat) : Except Overflow Int := Number.add64 s.successes s.fails

def successPercent (s : DailyStat) : Except Overflow Binary := do
  let total ← s.total
  .ok (if total = 0 then double.ofNat 0 else Number.percentage s.successes total)

def members (s : DailyStat) : List (String × Value) :=
  [("campaignId", .int s.campaign), ("statsDate", .date s.date), ("successCount", .int s.successes),
    ("failCount", .int s.fails)]

def json (s : DailyStat) : Value := .obj s.members

def view (s : DailyStat) : Except Overflow Value := do
  let total ← s.total
  let percent ← s.successPercent
  .ok (.obj (s.members ++ [("totalCount", .int total), ("successRatePercent", .real percent)]))

structure Draft where
  campaign : Option Int := none
  date : Option Date := none
  successes : Option Int := none
  fails : Option Int := none

def form : RecordForm DailyStat where
  Draft := Draft
  name := "DailyStat"
  members := [
    .place "campaignId" Draft.campaign (fun d a => { d with campaign := some a }) .int64,
    .place "statsDate" Draft.date (fun d a => { d with date := some a }) .date,
    .place "successCount" Draft.successes (fun d a => { d with successes := some a }) .int64,
    .place "failCount" Draft.fails (fun d a => { d with fails := some a }) .int64]
  empty := {}
  finish := fun d => do
    return ⟨← required "campaignId" d.campaign, ← required "statsDate" d.date,
      ← required "successCount" d.successes, ← required "failCount" d.fails⟩

def reader : Reader DailyStat := form.reader

end DailyStat

end CampaignSettlement.Ledger
