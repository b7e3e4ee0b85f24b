import CampaignSettlement.Number.Binary

/-!
Inversions: pairs of places whose values stand in falling order. They are counted while sorting. A pass merges the runs
of one buffer two by two into another; then the buffers change places and the runs are twice as wide, until one run is
left. The last runs of a buffer may be cut short. Each value of a right run that goes ahead of what is left of the left
run is inverted with all of that. Outside a buffer there is nothing to read or to write, and no result.
-/
namespace CampaignSettlement.Analysis

open Number (Binary double)

def slice (source : Array Int) (first last : Nat) : Option (List Int) :=
  if first ≤ last ∧ last ≤ source.size then some (source.extract first last).toList else none

def write (target : Array Int) (place : Nat) (value : Int) : Option (Array Int) :=
  if h : place < target.size then some (target.set place value) else none

def paste (target : Array Int) (place : Nat) : List Int → Option (Array Int)
  | [] => if place ≤ target.size then some target else none
  | v :: vs => do paste (← write target place v) (place + 1) vs

/-- Merges the run from `left` up to `middle` with the one from `right` up to `stop` into `target`, from `place` on, and
adds the inversions between the two to `count`. -/
def mergeRuns (source : Array Int) (middle stop left right place : Nat) (target : Array Int) (count : Nat) :
    Option (Array Int × Nat) :=
  if _ : left < middle ∧ right < stop then do
    let a ← source[left]?
    let b ← source[right]?
    if a ≤ b then mergeRuns source middle stop (left + 1) right (place + 1) (← write target place a) count
    else mergeRuns source middle stop left (right + 1) (place + 1) (← write target place b) (count + (middle - left))
  else do
    let target ← paste target place (← slice source left middle)
    let target ← paste target (place + (middle - left)) (← slice source right stop)
    return (target, count)
termination_by (middle - left) + (stop - right)

def mergePass (source : Array Int) (n width : Nat) (positive : 0 < width) (start : Nat) (target : Array Int)
    (count : Nat) : Option (Array Int × Nat) :=
  if start < n then do
    let middle := min (start + width) n
    let stop := min (start + 2 * width) n
    let (target, count) ← mergeRuns source middle stop start middle start target count
    mergePass source n width positive (start + 2 * width) target count
  else some (target, count)
termination_by n - start

def mergePasses (n width : Nat) (positive : 0 < width) (source target : Array Int) (count : Nat) : Option Nat :=
  if width < n then do
    let (sorted, count) ← mergePass source n width positive 0 target count
    mergePasses n (2 * width) (by omega) sorted source count
  else some count
termination_by n - width

def inversions? (values : List Int) : Option Nat :=
  if values.length < 2 then some 0
  else mergePasses values.length 1 Nat.one_pos values.toArray (Array.replicate values.length 0) 0

/-- The number of pairs of places `i < j` with a greater value at `i` than at `j`. No place is outside the buffers, so
there is always a result. -/
def inversions (values : List Int) : Nat := (inversions? values).getD 0

def pairs (n : Nat) : Nat := n * (n - 1) / 2

/-- The share of pairs in order, in percent; without pairs nothing is out of order. -/
def accuracy (inversions pairs : Nat) : Binary :=
  if pairs = 0 then double.ofNat 100
  else .div double (.mul double (double.ofNat 100) (double.ofNat (pairs - inversions))) (double.ofNat pairs)

end CampaignSettlement.Analysis
