import CampaignSettlement.Calendar.Instant
import CampaignSettlement.Text.Blank

/-!
Reading dates, times and instants from text. Blanks may stand before each number and around the
separators of a date. A number of the clock or of a month or day has one or two digits; a year has up to
four, or any number of digits after a sign. Each part is checked against its range as it is read, the
date as a whole at the end.
-/
namespace CampaignSettlement.Calendar

open Text (isBlank trimLeft isDigit digitValue)

inductive ReadingFault
  | outOfRange
  | impossible
  | invalid
  | tooShort
  | trailing
deriving DecidableEq, Repr

def ReadingFault.message : ReadingFault → String
  | outOfRange => "input is out of range"
  | impossible => "no possible date and time matching input"
  | invalid => "input contains invalid characters"
  | tooShort => "premature end of input"
  | trailing => "trailing input"

def moreDigits : Nat → Nat → List Char → Except ReadingFault (Nat × List Char)
  | 0, n, cs => .ok (n, cs)
  | _ + 1, n, [] => .ok (n, [])
  | limit + 1, n, c :: cs =>
    if isDigit c then
      let next := n * 10 + digitValue c
      if 9223372036854775807 < next then .error .outOfRange else moreDigits limit next cs
    else .ok (n, c :: cs)

def number (limit : Nat) : List Char → Except ReadingFault (Nat × List Char)
  | [] => .error .tooShort
  | c :: cs => if isDigit c then moreDigits limit 0 (c :: cs) else .error .invalid

def numberIn (low high : Nat) (cs : List Char) : Except ReadingFault (Nat × List Char) := do
  let (n, rest) ← number 2 (trimLeft cs)
  if low ≤ n && n ≤ high then .ok (n, rest) else .error .outOfRange

def literal (c : Char) : List Char → Except ReadingFault (List Char)
  | [] => .error .tooShort
  | d :: cs => if d == c then .ok cs else .error .invalid

def yearNumber (cs : List Char) : Except ReadingFault (Int × List Char) := do
  let checked (y : Int) (rest : List Char) : Except ReadingFault (Int × List Char) :=
    if -2147483648 ≤ y && y ≤ 2147483647 then .ok (y, rest) else .error .outOfRange
  match trimLeft cs with
  | '-' :: r => let (n, rest) ← number r.length r; checked (-n) rest
  | '+' :: r => let (n, rest) ← number r.length r; checked n rest
  | r => let (n, rest) ← number 4 r; checked n rest

def civil (cs : List Char) : Except ReadingFault ((Int × Nat × Nat) × List Char) := do
  let (y, cs) ← yearNumber cs
  let cs ← literal '-' (trimLeft cs)
  let (m, cs) ← numberIn 1 12 cs
  let cs ← literal '-' (trimLeft cs)
  let (d, cs) ← numberIn 1 31 cs
  .ok ((y, m, d), cs)

def civilDate (c : Int × Nat × Nat) : Except ReadingFault Date :=
  match Date.ofCivil? c.1 c.2.1 c.2.2 with
  | some d => .ok d
  | none => .error .outOfRange

def Date.read (s : String) : Except ReadingFault Date := do
  let (c, cs) ← civil s.toList
  if (trimLeft cs).isEmpty then civilDate c else .error .trailing

/-- Nanoseconds from one to nine digits; further digits are passed over. -/
def fraction (cs : List Char) : Except ReadingFault (Nat × List Char) := do
  let (n, rest) ← number 9 cs
  .ok (n * Nat.pow 10 (9 - (cs.length - rest.length)), rest.dropWhile isDigit)

def clock (cs : List Char) : Except ReadingFault (TimeOfDay × List Char) := do
  let (h, cs) ← numberIn 0 23 cs
  let cs ← literal ':' (trimLeft cs)
  let (m, cs) ← numberIn 0 59 cs
  let cs ← literal ':' (trimLeft cs)
  let (s, cs) ← numberIn 0 60 cs
  let (nano, cs) ← match cs with
    | '.' :: r => fraction r
    | r => .ok (0, r)
  match TimeOfDay.ofClock? h m s nano with
  | some t => .ok (t, cs)
  | none => .error .outOfRange

def offsetSeconds (cs : List Char) : Except ReadingFault (Int × List Char) := do
  let (negative, cs) ← match cs with
    | [] => .error .tooShort
    | '+' :: r => .ok (false, r)
    | '-' :: r => .ok (true, r)
    | '−' :: r => .ok (true, r)
    | _ => .error .invalid
  let (hours, cs) ← match cs with
    | a :: b :: r =>
      if isDigit a && isDigit b then .ok (digitValue a * 10 + digitValue b, r) else .error .invalid
    | [a] => if a.utf8Size < 2 then .error .tooShort else .error .invalid
    | [] => .error .tooShort
  let (minutes, cs) ← match cs.dropWhile fun c => c == ':' || isBlank c with
    | a :: b :: r =>
      if isDigit a && isDigit b then
        if digitValue a < 6 then .ok (digitValue a * 10 + digitValue b, r) else .error .outOfRange
      else .error .invalid
    | [a] => if a.utf8Size < 2 then .error .tooShort else .error .invalid
    | [] => .error .tooShort
  let seconds : Int := hours * 3600 + minutes * 60
  .ok (if negative then -seconds else seconds, cs)

def zone (cs : List Char) : Except ReadingFault (Int × List Char) :=
  match cs with
  | 'Z' :: r | 'z' :: r => .ok (0, r)
  | a :: b :: c :: r =>
    if a.toLower == 'u' && b.toLower == 't' && c.toLower == 'c' then .ok (0, r) else offsetSeconds cs
  | _ => offsetSeconds cs

/-- Between a date and its time stands a letter or the plain blank; other blanks may follow it, since the
first number of the clock passes over them. -/
def separator : List Char → Except ReadingFault (List Char)
  | [] => .error .tooShort
  | c :: r => if c == 'T' || c == 't' || c == ' ' then .ok r else .error .invalid

/-- A leap second stays one when its offset is taken off, since offsets are whole minutes. -/
def Instant.shift? (d : Date) (t : TimeOfDay) (offset : Int) : Option Instant :=
  let second := (t.second : Int) - offset
  match Date.ofDay? (d.day + second / 86400), TimeOfDay.of? (second % 86400).toNat t.nano with
  | some d, some t => some ⟨d, t⟩
  | _, _ => none

def Instant.read (s : String) : Except ReadingFault Instant := do
  let (c, cs) ← civil s.toList
  let cs ← separator cs
  let (t, cs) ← clock cs
  let (offset, cs) ← zone (trimLeft cs)
  if !(trimLeft cs).isEmpty then .error .trailing
  let d ← civilDate c
  if offset.natAbs < 86400 then
    match Instant.shift? d t offset with
    | some i => .ok i
    | none => .error .impossible
  else .error .outOfRange

def TimeOfDay.readHourMinute (s : String) : Except ReadingFault TimeOfDay := do
  let (h, cs) ← numberIn 0 23 s.toList
  let cs ← literal ':' cs
  let (m, cs) ← numberIn 0 59 cs
  if !cs.isEmpty then .error .trailing
  match TimeOfDay.ofClock? h m 0 0 with
  | some t => .ok t
  | none => .error .outOfRange

def TimeOfDay.read (s : String) : Except ReadingFault TimeOfDay := do
  let (t, cs) ← clock s.toList
  if cs.isEmpty then .ok t else .error .trailing

end CampaignSettlement.Calendar
