import CampaignSettlement.Ledger.Fault
import CampaignSettlement.Ledger.Record
import CampaignSettlement.Ledger.Window

/-!
What settlement and aggregation may ask of a ledger. Settlement works in transactions, named by the
numbers that `begin` gives out; all that one transaction takes and writes is committed or rolled back
together.
-/
namespace CampaignSettlement.Ledger

inductive StoreCall
  | begin
  | known (work : Nat) (campaign : Int)
  | decrement (work : Nat) (campaign : Int)
  | append (work : Nat) (entry : Entry)
  | commit (work : Nat)
  | rollback (work : Nat)
deriving DecidableEq, Repr

namespace StoreCall

/-- What a call gives when the store does not fail: a new transaction, whether the campaign exists,
whether a unit of stock was taken, the id of the new record. -/
abbrev Value : StoreCall → Type
  | begin => Nat
  | known .. | decrement .. => Bool
  | append .. => Int
  | commit _ | rollback _ => Unit

abbrev Reply (c : StoreCall) : Type := Except Fault c.Value

end StoreCall

/-- Access to a store of states `σ`, one call at a time. -/
abbrev Settler (σ : Type) := σ → (c : StoreCall) → σ × c.Reply

structure Totals (σ : Type) where
  campaigns : σ → Window → σ × Except Fault (List Int)
  /-- Writes the totals of the window anew, of one campaign or of all, and counts the rows. -/
  write : σ → Window → Option Int → σ × Except Fault Nat

end CampaignSettlement.Ledger
