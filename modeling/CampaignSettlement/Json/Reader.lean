import CampaignSettlement.Json.Skip
import CampaignSettlement.Number.Literal

/-!
Readers for values of a known type. A reader takes the unread bytes, blanks first, and gives its value
with what it left. A record is written as an object, with unknown members passed over, or as the list of
its members in order. A fault that a record finds as a whole lies after its closing bracket.
-/
namespace CampaignSettlement.Json

open Number (Range)

abbrev Reader (α : Type) := List UInt8 → Except Fault (α × List UInt8)

def unexpected (expected : String) (b : UInt8) (rest : List UInt8) : Fault :=
  let wrong (found : Found) (rest : List UInt8) : Fault := .before (.wrongType found expected) rest
  let afterWord (found : Found) : Except Fault (List UInt8) → Fault
    | .ok rest => wrong found rest
    | .error f => f
  if b == 110 then afterWord .null (nullWord rest)
  else if b == 116 then afterWord (.bool true) (trueWord rest)
  else if b == 102 then afterWord (.bool false) (falseWord rest)
  else if b == 45 || isDigit b then
    match number (b :: rest) with
    | .ok (.integer i, rest) => wrong (.integer i) rest
    | .ok (.real x, rest) => wrong (.real x) rest
    | .error f => f
  else if b == 34 then
    match text rest with
    | .ok (s, rest) => wrong (.text s) rest
    | .error f => f
  else if b == 91 then wrong .list (b :: rest)
  else if b == 123 then wrong .object (b :: rest)
  else .on .valueExpected (b :: rest)

namespace Reader

def integer (r : Range) (name : String) : Reader Int := fun rest =>
  match skipBlanks rest with
  | [] => .error (.before .endInValue [])
  | b :: rest =>
    if b == 45 || isDigit b then
      match number (b :: rest) with
      | .error f => .error f
      | .ok (.integer i, rest) =>
        if r.holds i then .ok (i, rest) else .error (.before (.outOfRange i name) rest)
      | .ok (.real x, rest) => .error (.before (.wrongType (.real x) name) rest)
    else .error (unexpected name b rest)

def int64 : Reader Int := integer Number.int64 "i64"

def int32 : Reader Int := integer Number.int32 "i32"

def count : Reader Nat := fun rest => (integer Number.nat64 "usize" rest).map fun (i, rest) => (i.toNat, rest)

def textAs {α : Type} (expected : String) (read : String → Except Cause α) : Reader α := fun rest =>
  match skipBlanks rest with
  | [] => .error (.before .endInValue [])
  | b :: rest =>
    if b == 34 then
      match text rest with
      | .error f => .error f
      | .ok (s, rest) =>
        match read s with
        | .ok a => .ok (a, rest)
        | .error c => .error (.before c rest)
    else .error (unexpected expected b rest)

def string : Reader String := textAs "a string" .ok

def option {α : Type} (r : Reader α) : Reader (Option α) := fun rest =>
  match skipBlanks rest with
  | 110 :: rest => (nullWord rest).map (none, ·)
  | rest => (r rest).map fun (a, rest) => (some a, rest)

def nextElement (first : Bool) (rest : List UInt8) : Except Fault (Option (List UInt8)) :=
  match skipBlanks rest with
  | [] => .error (.before .endInList [])
  | b :: r =>
    if b == 93 then .ok none
    else if first then .ok (some (b :: r))
    else if b == 44 then
      match skipBlanks r with
      | [] => .error (.before .endInValue [])
      | c :: s => if c == 93 then .error (.on .trailingComma (c :: s)) else .ok (some (c :: s))
    else .error (.on .listCommaExpected (b :: r))

def endList (rest : List UInt8) : Except Fault (List UInt8) :=
  match skipBlanks rest with
  | [] => .error (.before .endInList [])
  | b :: r =>
    if b == 93 then .ok r
    else if b == 44 then
      match skipBlanks r with
      | 93 :: s => .error (.on .trailingComma (93 :: s))
      | s => .error (.on .trailing s)
    else .error (.on .trailing (b :: r))

def indexStep (i : Nat) : String := "[" ++ toString i ++ "]"

/-- Each element reads a byte, so the fuel is the length. -/
def elements {α : Type} (r : Reader α) : Nat → Nat → List UInt8 → Except Fault (List α × List UInt8)
  | 0, _, rest => .error (.before .endInList rest)
  | fuel + 1, i, rest =>
    match nextElement (i == 0) rest with
    | .error f => .error f
    | .ok none => .ok ([], rest)
    | .ok (some rest) =>
      match r rest with
      | .error f => .error (f.within (indexStep i))
      | .ok (a, rest) => (elements r fuel (i + 1) rest).map fun (as, rest) => (a :: as, rest)

def list {α : Type} (r : Reader α) : Reader (List α) := fun rest =>
  match skipBlanks rest with
  | [] => .error (.before .endInValue [])
  | b :: rest =>
    if b == 91 then
      match elements r (rest.length + 1) 0 rest with
      | .error f => .error f
      | .ok (as, rest) => (endList rest).map (as, ·)
    else .error (unexpected "a sequence" b rest)

def colon (rest : List UInt8) : Except Fault (List UInt8) :=
  match skipBlanks rest with
  | [] => .error (.before .endInObject [])
  | b :: r => if b == 58 then .ok r else .error (.on .colonExpected (b :: r))

def nothing : Reader Unit := fun rest =>
  match skipBlanks rest with
  | [] => .error (.before .endInValue [])
  | b :: rest =>
    if b == 110 then (nullWord rest).map ((), ·) else .error (unexpected "unit" b rest)

/-- One of the named alternatives, as its name or as an object with that name and `null`. -/
def variant {α : Type} (known : List (String × α)) : Reader α := fun rest =>
  let named (s : String) : Except Cause α :=
    match known.lookup s with
    | some a => .ok a
    | none => .error (.unknownVariant s (known.map Prod.fst))
  let key : Reader α := fun rest =>
    match skipBlanks rest with
    | [] => .error (.before .endInObject [])
    | b :: r => if b == 34 then textAs "variant identifier" named (b :: r) else .error (.on .keyNotText (b :: r))
  match skipBlanks rest with
  | [] => .error (.before .endInValue [])
  | b :: r =>
    if b == 34 then textAs "variant identifier" named (b :: r)
    else if b == 123 then do
      let (a, r) ← key r
      let r ← colon r
      let (_, r) ← nothing r
      match skipBlanks r with
      | [] => .error (.before .endInObject [])
      | c :: s => if c == 125 then .ok (a, s) else .error (.before .valueExpected (c :: s))
    else .error (.on .valueExpected (b :: r))

end Reader

/-- A member of a record that is read into a draft `σ`: its name, whether the draft has it already, and
its reader. With `mayEnd` a list may stop before it. -/
structure Member (σ : Type) where
  name : String
  filled : σ → Bool
  read : σ → Reader σ
  mayEnd : Bool

namespace Member

def place {σ α : Type} (name : String) (get : σ → Option α) (set : σ → α → σ) (r : Reader α)
    (mayEnd : Bool := false) : Member σ :=
  ⟨name, fun d => (get d).isSome, fun d rest => (r rest).map fun (a, rest) => (set d a, rest), mayEnd⟩

end Member

/-- How a record is written: its name in messages, its members, the empty draft, and the finished value
or the first member that is missing. -/
structure RecordForm (α : Type) where
  Draft : Type
  name : String
  members : List (Member Draft)
  empty : Draft
  finish : Draft → Except String α

namespace RecordForm

open Reader

def nextKey (first : Bool) (rest : List UInt8) : Except Fault (Option (List UInt8)) :=
  match skipBlanks rest with
  | [] => .error (.before .endInObject [])
  | b :: r =>
    if b == 125 then .ok none
    else if first then
      if b == 34 then .ok (some r) else .error (.on .keyNotText (b :: r))
    else if b == 44 then
      match skipBlanks r with
      | [] => .error (.before .endInValue [])
      | c :: s =>
        if c == 34 then .ok (some s)
        else if c == 125 then .error (.on .trailingComma (c :: s))
        else .error (.on .keyNotText (c :: s))
    else .error (.on .objectCommaExpected (b :: r))

/-- A record's own fault lies after the bracket, if that is what comes next. -/
def afterClosing (bracket : UInt8) (rest : List UInt8) : List UInt8 :=
  match skipBlanks rest with
  | b :: r => if b == bracket then r else b :: r
  | [] => []

def readMembers {σ : Type} (ms : List (Member σ)) : Nat → Bool → σ → List UInt8 → Except Fault (σ × List UInt8)
  | 0, _, _, rest => .error (.before .endInObject rest)
  | fuel + 1, first, draft, rest =>
    match nextKey first rest with
    | .error f => .error f
    | .ok none => .ok (draft, rest)
    | .ok (some rest) =>
      match text rest with
      | .error f => .error f
      | .ok (key, rest) =>
        match ms.find? (·.name == key) with
        | some m =>
          if m.filled draft then .error (.before (.repeated key) (afterClosing 125 rest))
          else match colon rest with
            | .error f => .error f
            | .ok rest =>
              match m.read draft rest with
              | .error f => .error (f.within key)
              | .ok (draft, rest) => readMembers ms fuel false draft rest
        | none =>
          match colon rest with
          | .error f => .error f
          | .ok rest =>
            match skip rest with
            | .error f => .error (f.within key)
            | .ok rest => readMembers ms fuel false draft rest

def readInOrder {α : Type} (form : RecordForm α) :
    List (Member form.Draft) → Nat → form.Draft → List UInt8 → Except Fault (form.Draft × List UInt8)
  | [], _, draft, rest => .ok (draft, rest)
  | m :: ms, i, draft, rest =>
    match nextElement (i == 0) rest with
    | .error f => .error f
    | .ok none =>
      if m.mayEnd then readInOrder form ms (i + 1) draft rest
      else .error (.before (.wrongLength i form.name form.members.length) (afterClosing 93 rest))
    | .ok (some rest) =>
      match m.read draft rest with
      | .error f => .error (f.within (indexStep i))
      | .ok (draft, rest) => readInOrder form ms (i + 1) draft rest

def reader {α : Type} (form : RecordForm α) : Reader α := fun rest =>
  let finished (draft : form.Draft) (rest : List UInt8) : Except Fault (α × List UInt8) :=
    match form.finish draft with
    | .ok a => .ok (a, rest)
    | .error name => .error (.before (.missing name) rest)
  match skipBlanks rest with
  | [] => .error (.before .endInValue [])
  | b :: rest =>
    if b == 123 then
      match readMembers form.members (rest.length + 1) true form.empty rest with
      | .error f => .error f
      | .ok (draft, rest) => finished draft (afterClosing 125 rest)
    else if b == 91 then
      match readInOrder form form.members 0 form.empty rest with
      | .error f => .error f
      | .ok (draft, rest) =>
        match endList rest with
        | .error f => .error f
        | .ok rest => finished draft rest
    else .error (unexpected ("struct " ++ form.name) b rest)

end RecordForm

def document {α : Type} (r : Reader α) (input : List UInt8) : Except Fault α :=
  match r input with
  | .error f => .error f
  | .ok (a, rest) =>
    match skipBlanks rest with
    | [] => .ok a
    | b :: s => .error (.on .trailing (b :: s))

def opening {α : Type} (r : Reader α) (input : List UInt8) : Except Fault α := (r input).map Prod.fst

def required {α : Type} (name : String) : Option α → Except String α
  | some a => .ok a
  | none => .error name

end CampaignSettlement.Json
