/-!
Small tables: lists of keyed rows, ascending by key, with one row per key.
-/
namespace CampaignSettlement.Ledger

abbrev Table (κ α : Type) := List (κ × α)

namespace Table

variable {κ α : Type} [Ord κ]

def get? (k : κ) : Table κ α → Option α
  | [] => none
  | (l, a) :: rows => if compare k l == .eq then some a else get? k rows

/-- Adds a row, or replaces the one with its key. -/
def put (k : κ) (a : α) : Table κ α → Table κ α
  | [] => [(k, a)]
  | (l, b) :: rows =>
    match compare k l with
    | .lt => (k, a) :: (l, b) :: rows
    | .eq => (k, a) :: rows
    | .gt => (l, b) :: put k a rows

def update (k : κ) (f : α → α) : Table κ α → Table κ α
  | [] => []
  | (l, b) :: rows => if compare k l == .eq then (l, f b) :: rows else (l, b) :: update k f rows

def values (t : Table κ α) : List α := t.map Prod.snd

def keys (t : Table κ α) : List κ := t.map Prod.fst

end Table

end CampaignSettlement.Ledger
