/-!
Binary floating formats in exact arithmetic. A finite value is a signed natural number times a power of
two. Each operation forms its exact rational result and rounds it once, to the nearest value of the
format, a tie to the even significand.
-/
namespace CampaignSettlement.Number

/-- `width` bits of significand, `total` bits of encoding, and the least and greatest exponent of the
last significand bit. -/
structure Format where
  width : Nat
  total : Nat
  least : Int
  greatest : Int
deriving DecidableEq, Repr

def single : Format := ⟨24, 32, -149, 104⟩

def double : Format := ⟨53, 64, -1074, 971⟩

inductive Binary
  | finite (negative : Bool) (mantissa : Nat) (exponent : Int)
  | infinite (negative : Bool)
  | undefined (negative : Bool)
deriving DecidableEq, Repr

def nearest (num den : Nat) : Nat :=
  let q := num / den
  let twice := 2 * (num % den)
  if twice < den then q else if den < twice then q + 1 else q + q % 2

def scaled (num den : Nat) (e : Int) : Nat × Nat :=
  if 0 ≤ e then (num, den * Nat.pow 2 e.toNat) else (num * Nat.pow 2 (-e).toNat, den)

def log2Ratio (num den : Nat) : Int :=
  let l : Int := (num.log2 : Int) - den.log2
  let (a, b) := scaled num den l
  if a < b then l - 1 else l

/-- A zero is written with the least exponent, so equal values have equal forms. -/
def Format.round (f : Format) (negative : Bool) (num den : Nat) : Binary :=
  if num = 0 then .finite negative 0 f.least
  else
    let e := max f.least (log2Ratio num den - (f.width - 1 : Nat))
    let (a, b) := scaled num den e
    let m := nearest a b
    let (m, e) := if m = Nat.pow 2 f.width then (Nat.pow 2 (f.width - 1), e + 1) else (m, e)
    if f.greatest < e then .infinite negative else .finite negative m e

def Format.ofNat (f : Format) (n : Nat) : Binary := f.round false n 1

def Format.ofInt (f : Format) (i : Int) : Binary := f.round (i < 0) i.natAbs 1

/-- The value `mantissa * 10 ^ exponent`; magnitudes that no format holds are not expanded. -/
def Format.ofDecimal (f : Format) (negative : Bool) (mantissa : Nat) (exponent : Int) : Binary :=
  if mantissa = 0 then f.round negative 0 1
  else
    let top : Int := (Nat.toDigits 10 mantissa).length + exponent
    if 400 < top then .infinite negative
    else if top < -400 then f.round negative 0 1
    else if 0 ≤ exponent then f.round negative (mantissa * Nat.pow 10 exponent.toNat) 1
    else f.round negative mantissa (Nat.pow 10 (-exponent).toNat)

def dyadic (m : Nat) (e : Int) : Nat × Nat :=
  if 0 ≤ e then (m * Nat.pow 2 e.toNat, 1) else (m, Nat.pow 2 (-e).toNat)

namespace Binary

def negative : Binary → Bool
  | finite n _ _ => n
  | infinite n => n
  | undefined n => n

def negate : Binary → Binary
  | finite n m e => finite (!n) m e
  | infinite n => infinite (!n)
  | undefined n => undefined (!n)

def isZero : Binary → Bool
  | finite _ 0 _ => true
  | _ => false

def le (x y : Binary) : Bool :=
  match x, y with
  | undefined _, _ | _, undefined _ => false
  | infinite true, _ | _, infinite false => true
  | infinite false, _ | _, infinite true => false
  | finite nx mx ex, finite ny my ey =>
    let (a, b) := dyadic mx ex
    let (c, d) := dyadic my ey
    let l : Int := if nx then -(a * d : Nat) else (a * d : Nat)
    let r : Int := if ny then -(c * b : Nat) else (c * b : Nat)
    decide (l ≤ r)

def mul (f : Format) (x y : Binary) : Binary :=
  let sign := x.negative != y.negative
  match x, y with
  | finite _ mx ex, finite _ my ey =>
    let (a, b) := dyadic (mx * my) (ex + ey)
    f.round sign a b
  | undefined _, _ | _, undefined _ => undefined false
  | _, _ => if x.isZero || y.isZero then undefined false else infinite sign

def div (f : Format) (x y : Binary) : Binary :=
  let sign := x.negative != y.negative
  match x, y with
  | finite _ mx ex, finite _ my ey =>
    if my = 0 then if mx = 0 then undefined false else infinite sign
    else
      let (a, b) := dyadic mx (ex - ey)
      f.round sign a (b * my)
  | undefined _, _ | _, undefined _ => undefined false
  | infinite _, infinite _ => undefined false
  | infinite _, _ => infinite sign
  | _, infinite _ => f.round sign 0 1

/-- The sum of opposite values is a positive zero. -/
def add (f : Format) (x y : Binary) : Binary :=
  match x, y with
  | finite nx mx ex, finite ny my ey =>
    let (a, b) := dyadic mx ex
    let (c, d) := dyadic my ey
    let l : Int := if nx then -(a * d : Nat) else (a * d : Nat)
    let r : Int := if ny then -(c * b : Nat) else (c * b : Nat)
    f.round (if l + r = 0 then nx && ny else l + r < 0) (l + r).natAbs (b * d)
  | undefined _, _ | _, undefined _ => undefined false
  | infinite nx, infinite ny => if nx = ny then infinite nx else undefined false
  | infinite nx, _ => infinite nx
  | _, infinite ny => infinite ny

def roundHalfAway (f : Format) : Binary → Binary
  | finite n m e =>
    let (a, b) := dyadic m e
    f.round n ((2 * a + b) / (2 * b)) 1
  | x => x

def toBits (f : Format) (x : Binary) : Nat :=
  let sign (n : Bool) : Nat := if n then Nat.pow 2 (f.total - 1) else 0
  let hidden := Nat.pow 2 (f.width - 1)
  let top := (f.greatest - f.least + 2).toNat * hidden
  match x with
  | finite n m e => sign n + (if m < hidden then m else (e - f.least).toNat * hidden + m)
  | infinite n => sign n + top
  | undefined n => sign n + top + hidden / 2

end Binary

def hexText (width n : Nat) : String :=
  let ds := Nat.toDigits 16 n
  String.ofList (List.replicate (width - ds.length) '0' ++ ds)

def Binary.bitsText (f : Format) (x : Binary) : String := hexText (f.total / 4) (x.toBits f)

example : (double.ofNat 100).bitsText double = "4059000000000000" := by decide +kernel
example : (Binary.div double (double.ofNat 1) (double.ofNat 3)).bitsText double = "3fd5555555555555" := by
  decide +kernel
example : (single.ofDecimal false 1 (-1)).bitsText single = "3dcccccd" := by decide +kernel

end CampaignSettlement.Number
