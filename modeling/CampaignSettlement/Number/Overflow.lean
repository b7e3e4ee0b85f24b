import CampaignSettlement.Number.Literal

/-!
Numbers that have to stay within 64 bits. Leaving the range is an outcome of its own.
-/
namespace CampaignSettlement.Number

inductive Overflow
  | addition
  | subtraction
  | multiplication
  | earlierDate
  | laterInstant
deriving DecidableEq, Repr

def Overflow.message : Overflow → String
  | addition => "attempt to add with overflow"
  | subtraction => "attempt to subtract with overflow"
  | multiplication => "attempt to multiply with overflow"
  | earlierDate => "`NaiveDate - TimeDelta` overflowed"
  | laterInstant => "`DateTime + TimeDelta` overflowed"

def add64 (a b : Int) : Except Overflow Int :=
  if int64.holds (a + b) then .ok (a + b) else .error .addition

def sub64 (a b : Int) : Except Overflow Int :=
  if int64.holds (a - b) then .ok (a - b) else .error .subtraction

def percentage (part whole : Int) : Binary :=
  .div double (.mul double (double.ofInt part) (double.ofNat 100)) (double.ofInt whole)

end CampaignSettlement.Number
