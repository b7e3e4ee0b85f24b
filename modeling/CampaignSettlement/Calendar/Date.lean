/-!
Days of the proleptic Gregorian calendar, counted from 1970-01-01 and kept between the first day of the
year -262143 and the last day of the year 262142. Order, successor and distance are those of the day
number; the civil form is for reading and writing.
-/
namespace CampaignSettlement.Calendar

def isLeap (year : Int) : Bool :=
  year % 4 == 0 && (year % 100 != 0 || year % 400 == 0)

def monthLength (year : Int) (month : Nat) : Nat :=
  match month with
  | 2 => if isLeap year then 29 else 28
  | 4 | 6 | 9 | 11 => 30
  | _ => 31

def monthStart (month : Nat) : Nat :=
  match month with
  | 1 => 0 | 2 => 31 | 3 => 59 | 4 => 90 | 5 => 120 | 6 => 151
  | 7 => 181 | 8 => 212 | 9 => 243 | 10 => 273 | 11 => 304 | _ => 334

def yearStart (year : Int) : Int :=
  let y := year - 1
  365 * year + y / 4 - y / 100 + y / 400 - 719527

def dayNumber (year : Int) (month day : Nat) : Int :=
  yearStart year + monthStart month + (if 2 < month && isLeap year then 1 else 0) + (day - 1 : Int)

def minDay : Int := dayNumber (-262143) 1 1

def maxDay : Int := dayNumber 262142 12 31

structure Date where
  day : Int
  inRange : minDay ≤ day ∧ day ≤ maxDay
deriving DecidableEq

namespace Date

instance : Repr Date := ⟨fun d _ => repr d.day⟩

def ofDay? (n : Int) : Option Date :=
  if h : minDay ≤ n ∧ n ≤ maxDay then some ⟨n, h⟩ else none

def least : Date := ⟨minDay, by decide⟩

def greatest : Date := ⟨maxDay, by decide⟩

def ofCivil? (year : Int) (month day : Nat) : Option Date :=
  if 1 ≤ month && month ≤ 12 && 1 ≤ day && day ≤ monthLength year month then
    ofDay? (dayNumber year month day)
  else none

def add? (d : Date) (days : Int) : Option Date := ofDay? (d.day + days)

def next? (d : Date) : Option Date := d.add? 1

def previous? (d : Date) : Option Date := d.add? (-1)

instance : LT Date := ⟨fun a b => a.day < b.day⟩
instance : LE Date := ⟨fun a b => a.day ≤ b.day⟩
instance (a b : Date) : Decidable (a < b) := inferInstanceAs (Decidable (a.day < b.day))
instance (a b : Date) : Decidable (a ≤ b) := inferInstanceAs (Decidable (a.day ≤ b.day))

/-- The year of a day number, found from the mean length of a year and corrected by at most one. -/
def yearOf (n : Int) : Int :=
  let guess := (n * 400) / 146097 + 1970
  if n < yearStart guess then guess - 1 else if yearStart (guess + 1) ≤ n then guess + 1 else guess

def year (d : Date) : Int := yearOf d.day

def ordinal (d : Date) : Nat := (d.day - yearStart d.year).toNat

def monthDay (leap : Bool) (ordinal : Nat) : Nat × Nat :=
  let start (m : Nat) : Nat := monthStart m + if 2 < m && leap then 1 else 0
  match [12, 11, 10, 9, 8, 7, 6, 5, 4, 3, 2].find? (fun m => start m ≤ ordinal) with
  | some m => (m, ordinal - start m + 1)
  | none => (1, ordinal + 1)

def month (d : Date) : Nat := (monthDay (isLeap d.year) d.ordinal).1

def dayOfMonth (d : Date) : Nat := (monthDay (isLeap d.year) d.ordinal).2

end Date

def padded (width n : Nat) : String :=
  let ds := Nat.toDigits 10 n
  String.ofList (List.replicate (width - ds.length) '0' ++ ds)

def yearText (y : Int) : String :=
  if 0 ≤ y && y ≤ 9999 then padded 4 y.toNat
  else (if y < 0 then "-" else "+") ++ padded 4 y.natAbs

def Date.text (d : Date) : String :=
  yearText d.year ++ "-" ++ padded 2 d.month ++ "-" ++ padded 2 d.dayOfMonth

instance : ToString Date := ⟨Date.text⟩

end CampaignSettlement.Calendar
