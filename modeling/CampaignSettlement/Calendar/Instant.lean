import CampaignSettlement.Calendar.Date

/-!
Instants of coordinated time: a day, a second of that day, and nanoseconds. A leap second is the last
second of a minute with 1000000000 nanoseconds or more: it is written `:60` and sorts after the second
it extends and before the next minute.
-/
namespace CampaignSettlement.Calendar

def nanosPerSecond : Nat := 1000000000

structure TimeOfDay where
  second : Nat
  nano : Nat
  second_lt : second < 86400
  nano_lt : nano < 2000000000
  leap : 1000000000 ≤ nano → second % 60 = 59
deriving DecidableEq

namespace TimeOfDay

instance : Repr TimeOfDay := ⟨fun t _ => repr (t.second, t.nano)⟩

def of? (second nano : Nat) : Option TimeOfDay :=
  if h : second < 86400 ∧ nano < 2000000000 ∧ (1000000000 ≤ nano → second % 60 = 59) then
    some ⟨second, nano, h.1, h.2.1, h.2.2⟩
  else none

def midnight : TimeOfDay := ⟨0, 0, by decide, by decide, by decide⟩

/-- Second 60 is the leap second of its minute. -/
def ofClock? (hour minute second nano : Nat) : Option TimeOfDay :=
  if hour < 24 && minute < 60 && second ≤ 60 && nano < nanosPerSecond then
    if second = 60 then of? (hour * 3600 + minute * 60 + 59) (nanosPerSecond + nano)
    else of? (hour * 3600 + minute * 60 + second) nano
  else none

def text (t : TimeOfDay) : String :=
  let leap := decide (nanosPerSecond ≤ t.nano)
  let frac := t.nano % nanosPerSecond
  let clock := padded 2 (t.second / 3600) ++ ":" ++ padded 2 (t.second / 60 % 60) ++ ":" ++
    padded 2 (t.second % 60 + if leap then 1 else 0)
  if frac = 0 then clock
  else if frac % 1000000 = 0 then clock ++ "." ++ padded 3 (frac / 1000000)
  else if frac % 1000 = 0 then clock ++ "." ++ padded 6 (frac / 1000)
  else clock ++ "." ++ padded 9 frac

end TimeOfDay

structure Instant where
  date : Date
  time : TimeOfDay
deriving DecidableEq, Repr

namespace Instant

def rank (t : Instant) : Int := (t.date.day * 86400 + t.time.second) * 2000000000 + t.time.nano

instance : LT Instant := ⟨fun a b => a.rank < b.rank⟩
instance : LE Instant := ⟨fun a b => a.rank ≤ b.rank⟩
instance (a b : Instant) : Decidable (a < b) := inferInstanceAs (Decidable (a.rank < b.rank))
instance (a b : Instant) : Decidable (a ≤ b) := inferInstanceAs (Decidable (a.rank ≤ b.rank))

def least : Instant := ⟨.least, .midnight⟩

def greatest : Instant := ⟨.greatest, ⟨86399, 999999999, by decide, by decide, by decide⟩⟩

def startOf (d : Date) : Instant := ⟨d, .midnight⟩

def normal? (day second : Int) (nano : Int) : Option Instant :=
  let second := second + nano / 1000000000
  let nano := nano % 1000000000
  match Date.ofDay? (day + second / 86400), TimeOfDay.of? (second % 86400).toNat nano.toNat with
  | some d, some t => some ⟨d, t⟩
  | _, _ => none

/-- The instant `nanos` nanoseconds later. A leap second is left as the second that it extends: forward
out of it by dropping its extra second, backward by counting it. -/
def addNanos? (t : Instant) (nanos : Int) : Option Instant :=
  let seconds := nanos.tdiv 1000000000
  let rest := nanos.tmod 1000000000
  let second : Int := t.time.second
  let nano : Int := t.time.nano
  if nano < 1000000000 then normal? t.date.day (second + seconds) (nano + rest)
  else if 0 < seconds ∨ (0 < rest ∧ 2000000000 - rest ≤ nano) then
    normal? t.date.day (second + seconds) (nano - 1000000000 + rest)
  else if seconds < 0 then
    normal? t.date.day (second + 1 + seconds) (nano - 1000000000 + rest)
  else if 1000000000 ≤ nano + rest then
    (TimeOfDay.of? t.time.second (nano + rest).toNat).map (⟨t.date, ·⟩)
  else normal? t.date.day second (nano + rest)

def addDays? (t : Instant) (days : Int) : Option Instant := t.addNanos? (days * 86400 * 1000000000)

/-- Nanoseconds from `b` to `a`. A leap second that begins the later part of the span counts one more
second. -/
def since (a b : Instant) : Int :=
  let sa : Int := a.time.second
  let sb : Int := b.time.second
  let leapOf (t : Instant) : Int := if 1000000000 ≤ t.time.nano then 1 else 0
  let adjust : Int := if sb < sa then leapOf b else if sa < sb then -leapOf a else 0
  ((a.date.day - b.date.day) * 86400 + sa - sb + adjust) * 1000000000 + (a.time.nano - b.time.nano : Int)

def toMicros (t : Instant) : Instant :=
  ⟨t.date, t.time.second, t.time.nano / 1000 * 1000, t.time.second_lt, by
    have := t.time.nano_lt; omega, fun h => t.time.leap (by omega)⟩

def text (t : Instant) : String := t.date.text ++ "T" ++ t.time.text ++ "Z"

def display (t : Instant) : String := t.date.text ++ " " ++ t.time.text ++ " UTC"

end Instant

end CampaignSettlement.Calendar
