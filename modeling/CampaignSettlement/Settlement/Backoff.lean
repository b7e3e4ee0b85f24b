import CampaignSettlement.Number.Binary

/-!
Bounded exponential backoff. The first delay is taken as it is; every later one is the delay before it
times the factor, in single precision, and never above the greatest delay.
-/
namespace CampaignSettlement.Settlement

open Number (Binary single)

structure Duration where
  nanos : Nat
deriving DecidableEq, Repr

namespace Duration

def ofMillis (n : Nat) : Duration := ⟨n * 1000000⟩

def seconds (d : Duration) : Nat := d.nanos / 1000000000

def rest (d : Duration) : Nat := d.nanos % 1000000000

instance : LT Duration := ⟨fun a b => a.nanos < b.nanos⟩
instance : LE Duration := ⟨fun a b => a.nanos ≤ b.nanos⟩
instance (a b : Duration) : Decidable (a < b) := inferInstanceAs (Decidable (a.nanos < b.nanos))
instance (a b : Duration) : Decidable (a ≤ b) := inferInstanceAs (Decidable (a.nanos ≤ b.nanos))

/-- Seconds and fraction are rounded apart and then added. -/
def toSingle (d : Duration) : Binary :=
  .add single (single.ofNat d.seconds) (.div single (single.ofNat d.rest) (single.ofNat 1000000000))

/-- The nearest nanosecond; nothing for what no span holds: below zero, be it by less than a nanosecond,
`2 ^ 64` seconds and more, or no number at all. -/
def ofSingle? : Binary → Option Duration
  | .finite negative m e =>
    let (a, b) := Number.dyadic m e
    let nanos := Number.nearest (a * 1000000000) b
    if (negative && m != 0) || Nat.pow 2 64 * 1000000000 ≤ nanos then none else some ⟨nanos⟩
  | _ => none

end Duration

structure Backoff where
  maxAttempts : Nat
  initial : Duration
  greatest : Duration
  factor : Binary
  jitter : Bool
deriving DecidableEq, Repr

namespace Backoff

def next (b : Backoff) (d : Duration) : Duration :=
  if d < b.greatest then
    match Duration.ofSingle? (.mul single b.factor d.toSingle) with
    | some r => if r < b.greatest then r else b.greatest
    | none => b.greatest
  else b.greatest

def retries (b : Backoff) : Nat := b.maxAttempts - 1

def delaysFrom (b : Backoff) : Nat → Duration → List Duration
  | 0, _ => []
  | n + 1, d => d :: delaysFrom b n (b.next d)

def delays (b : Backoff) : List Duration := b.delaysFrom b.retries b.initial

theorem length_delaysFrom (b : Backoff) (n : Nat) (d : Duration) : (b.delaysFrom n d).length = n := by
  induction n generalizing d with
  | zero => rfl
  | succ n ih => simp [delaysFrom, ih]

theorem next_le (b : Backoff) (d : Duration) : b.next d ≤ b.greatest := by
  have le_refl : b.greatest ≤ b.greatest := Nat.le_refl _
  unfold next
  split
  · split
    · split
      · next h => exact Nat.le_of_lt h
      · exact le_refl
    · exact le_refl
  · exact le_refl

end Backoff

end CampaignSettlement.Settlement
