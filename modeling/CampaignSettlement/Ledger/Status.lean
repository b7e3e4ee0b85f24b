import CampaignSettlement.Json.Reader

/-!
The states of a campaign and the results of a participation, with their written names.
-/
namespace CampaignSettlement.Ledger

inductive CampaignStatus
  | opened
  | closed
deriving DecidableEq, Repr

namespace CampaignStatus

def name : CampaignStatus → String
  | opened => "OPEN"
  | closed => "CLOSED"

def named : List (String × CampaignStatus) := [("OPEN", opened), ("CLOSED", closed)]

def ofName? (s : String) : Option CampaignStatus := named.lookup s

def reader : Json.Reader CampaignStatus := .variant named

theorem ofName?_name (s : CampaignStatus) : ofName? s.name = some s := by cases s <;> decide

end CampaignStatus

inductive Result
  | success
  | fail
deriving DecidableEq, Repr

namespace Result

def name : Result → String
  | success => "SUCCESS"
  | fail => "FAIL"

def named : List (String × Result) := [("SUCCESS", success), ("FAIL", fail)]

def ofName? (s : String) : Option Result := named.lookup s

def reader : Json.Reader Result := .variant named

theorem ofName?_name (r : Result) : ofName? r.name = some r := by cases r <;> decide

end Result

end CampaignSettlement.Ledger
