import CampaignSettlement.Number.Binary

/-!
The decimal with the fewest digits that reads back as a given binary value, and the layouts that write
it. The decimals that read back fill an interval around the value, which holds its ends when the
significand is even. A grid of decimals meets the interval in a neighbour of the value, or not at all,
so only the two neighbours on each grid are tried, coarse grids first.
-/
namespace CampaignSettlement.Number

structure Decimal where
  digits : Nat
  exponent : Int
deriving DecidableEq, Repr

def digitCount (n : Nat) : Nat := (Nat.toDigits 10 n).length

def log10Ratio (num den : Nat) : Int :=
  if den ≤ num then (digitCount (num / den) : Int) - 1
  else -(digitCount ((den + num - 1) / num - 1) : Int)

/-- The interval of a significand, in quarters of its last place: low end, value, high end. Below a
power of two the gap is half as wide. -/
def quarters (f : Format) (m : Nat) (e : Int) : Nat × Nat × Nat :=
  (if m = Nat.pow 2 (f.width - 1) ∧ f.least < e then 4 * m - 1 else 4 * m - 2, 4 * m, 4 * m + 2)

def onGrid (f : Format) (m : Nat) (e k : Int) : Option Nat :=
  let (lo, mid, hi) := quarters f m e
  let (p, q) := dyadic 1 (e - 2)
  let (s, t) : Nat × Nat := if 0 ≤ k then (Nat.pow 10 k.toNat, 1) else (1, Nat.pow 10 (-k).toNat)
  -- one grid step is `q * s`, one quarter is `p * t`
  let step := q * s
  let unit := p * t
  let inside (c : Nat) : Bool :=
    if m % 2 = 0 then decide (lo * unit ≤ c * step) && decide (c * step ≤ hi * unit)
    else decide (lo * unit < c * step) && decide (c * step < hi * unit)
  let below := mid * unit / step
  let nearer := decide (2 * (mid * unit % step) ≤ step)
  match inside below, inside (below + 1) with
  | true, true => some (if nearer then below else below + 1)
  | true, false => some below
  | false, true => some (below + 1)
  | false, false => none

def stripZeros : Nat → Nat → Int → Decimal
  | 0, d, k => ⟨d, k⟩
  | fuel + 1, d, k => if d % 10 = 0 && d != 0 then stripZeros fuel (d / 10) (k + 1) else ⟨d, k⟩

/-- Tries grids from coarse to fine; seventeen digits always read back. -/
def search (f : Format) (m : Nat) (e : Int) : Nat → Int → Decimal
  | 0, k => ⟨(onGrid f m e k).getD 0, k⟩
  | left + 1, k =>
    match onGrid f m e k with
    | some d => stripZeros (digitCount d) d k
    | none => search f m e left (k - 1)

def shortest (f : Format) (m : Nat) (e : Int) : Decimal :=
  let (a, b) := dyadic m e
  search f m e 17 (log10Ratio a b)

namespace Decimal

def magnitude (d : Decimal) : Int := digitCount d.digits - 1 + d.exponent

def positional (d : Decimal) : String :=
  let ds := Nat.toDigits 10 d.digits
  if 0 ≤ d.exponent then String.ofList (ds ++ List.replicate d.exponent.toNat '0')
  else
    let places := (-d.exponent).toNat
    if places < ds.length then
      String.ofList (ds.take (ds.length - places) ++ '.' :: ds.drop (ds.length - places))
    else String.ofList ('0' :: '.' :: (List.replicate (places - ds.length) '0' ++ ds))

def scientific (d : Decimal) : String :=
  let mantissa := match Nat.toDigits 10 d.digits with
    | c :: r => if r.isEmpty then String.ofList [c] else String.ofList (c :: '.' :: r)
    | [] => "0"
  mantissa ++ "e" ++ (if d.magnitude < 0 then "-" else "+") ++ toString d.magnitude.natAbs

end Decimal

namespace Binary

def withSign (negative : Bool) (s : String) : String := if negative then "-" ++ s else s

def plainText (f : Format) : Binary → String
  | finite n m e => withSign n (if m = 0 then "0" else (shortest f m e).positional)
  | infinite n => withSign n "inf"
  | undefined _ => "NaN"

/-- As JSON numbers are written: at least one place after the point, and an exponent from `1e+16` up and
below `0.00001`. Values without a number are `null`. -/
def jsonText (f : Format) : Binary → String
  | finite n m e =>
    withSign n <|
      if m = 0 then "0.0"
      else
        let d := shortest f m e
        if -5 ≤ d.magnitude && d.magnitude < 16 then
          if 0 ≤ d.exponent then d.positional ++ ".0" else d.positional
        else d.scientific
  | _ => "null"

end Binary

example : (Binary.div double (double.ofNat 200) (double.ofNat 3)).jsonText double = "66.66666666666667" := by
  decide +kernel
example : (double.ofDecimal false 5 (-324)).jsonText double = "5e-324" := by decide +kernel
example : (double.ofNat (Nat.pow 2 63 - 1)).plainText double = "9223372036854776000" := by decide +kernel

end CampaignSettlement.Number
