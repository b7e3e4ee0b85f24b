import CampaignSettlement.Number.Binary
import CampaignSettlement.Text.Blank

/-!
Numbers in settings, paths and queries: an optional sign and ASCII digits for integers; digits with a
point and a power of ten, or the words for infinity and not-a-number, for binary values. No blanks.
-/
namespace CampaignSettlement.Number

inductive IntegerFault
  | empty
  | invalidDigit
  | tooLarge
  | tooSmall
deriving DecidableEq, Repr

def IntegerFault.message : IntegerFault → String
  | empty => "cannot parse integer from empty string"
  | invalidDigit => "invalid digit found in string"
  | tooLarge => "number too large to fit in target type"
  | tooSmall => "number too small to fit in target type"

structure Range where
  low : Int
  high : Int
deriving DecidableEq, Repr

def Range.holds (r : Range) (i : Int) : Bool := decide (r.low ≤ i) && decide (i ≤ r.high)

theorem Range.holds_iff {r : Range} {i : Int} : r.holds i = true ↔ r.low ≤ i ∧ i ≤ r.high := by
  rw [holds, Bool.and_eq_true, decide_eq_true_iff, decide_eq_true_iff]

def int64 : Range := ⟨-9223372036854775808, 9223372036854775807⟩
def int32 : Range := ⟨-2147483648, 2147483647⟩
def nat64 : Range := ⟨0, 18446744073709551615⟩
def nat32 : Range := ⟨0, 4294967295⟩
def nat16 : Range := ⟨0, 65535⟩

/-- Reads digits on to `value`. A digit that leaves the range ends the reading before later characters
are looked at. -/
def readDigits (r : Range) (negative : Bool) : Int → List Char → Except IntegerFault Int
  | value, [] => .ok value
  | value, c :: cs =>
    if Text.isDigit c then
      let next := if negative then 10 * value - Text.digitValue c else 10 * value + Text.digitValue c
      if r.high < next then .error .tooLarge
      else if next < r.low then .error .tooSmall
      else readDigits r negative next cs
    else .error .invalidDigit

/-- A minus sign is known only where the range has negative numbers. -/
def integer (r : Range) (s : String) : Except IntegerFault Int :=
  match s.toList with
  | [] => .error .empty
  | ['+'] | ['-'] => .error .invalidDigit
  | '+' :: cs => readDigits r false 0 cs
  | '-' :: cs => if r.low < 0 then readDigits r true 0 cs else .error .invalidDigit
  | cs => readDigits r false 0 cs

def digitsValue (cs : List Char) : Nat := cs.foldl (fun n c => n * 10 + Text.digitValue c) 0

def exponent? (cs : List Char) : Option Int :=
  let (negative, ds) := match cs with
    | '-' :: r => (true, r)
    | '+' :: r => (false, r)
    | r => (false, r)
  if ds.isEmpty || !ds.all Text.isDigit then none
  else
    let n := ds.foldl (fun n c => if n < 65536 then 10 * n + Text.digitValue c else n) 0
    some (if negative then -(n : Int) else n)

def decimal? (f : Format) (negative : Bool) (cs : List Char) : Option Binary :=
  let whole := cs.takeWhile Text.isDigit
  let rest := cs.dropWhile Text.isDigit
  let (places, rest) := match rest with
    | '.' :: r => (r.takeWhile Text.isDigit, r.dropWhile Text.isDigit)
    | r => ([], r)
  if whole.isEmpty && places.isEmpty then none
  else
    let value (e : Int) := f.ofDecimal negative (digitsValue (whole ++ places)) (e - places.length)
    match rest with
    | [] => some (value 0)
    | c :: r => if c == 'e' || c == 'E' then (exponent? r).map value else none

def binary? (f : Format) (s : String) : Option Binary :=
  let (negative, cs) := match s.toList with
    | '-' :: r => (true, r)
    | '+' :: r => (false, r)
    | r => (false, r)
  match decimal? f negative cs with
  | some x => some x
  | none =>
    let word := String.ofList (cs.map Char.toLower)
    if word = "inf" || word = "infinity" then some (.infinite negative)
    else if word = "nan" then some (.undefined negative)
    else none

end CampaignSettlement.Number
