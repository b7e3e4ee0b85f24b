import CampaignSettlement.Json.Fault
import CampaignSettlement.Text.Utf8

/-!
The tokens of JSON: blanks, words, numbers and texts, each read off the front of a list of bytes. An
integer that fits in 64 bits is exact. Any other number is a binary value: at most twenty digits are
kept, and the power of ten is multiplied or divided in.
-/
namespace CampaignSettlement.Json

open Number (Binary double)

def isBlank (b : UInt8) : Bool := b == 32 || b == 10 || b == 9 || b == 13

def skipBlanks (bs : List UInt8) : List UInt8 := bs.dropWhile isBlank

def isDigit (b : UInt8) : Bool := 48 ≤ b && b ≤ 57

def digit (b : UInt8) : Nat := b.toNat - 48

def word : List UInt8 → List UInt8 → Except Fault (List UInt8)
  | [], rest => .ok rest
  | _ :: _, [] => .error (.before .endInValue [])
  | l :: ls, b :: rest => if l == b then word ls rest else .error (.before .wordExpected rest)

def nullWord (rest : List UInt8) : Except Fault (List UInt8) := word [117, 108, 108] rest

def trueWord (rest : List UInt8) : Except Fault (List UInt8) := word [114, 117, 101] rest

def falseWord (rest : List UInt8) : Except Fault (List UInt8) := word [97, 108, 115, 101] rest

inductive Numeral
  | integer (i : Int)
  | real (x : Binary)
deriving DecidableEq, Repr

/-- Digits that a significand of 64 bits still takes: the significand, how many were taken, and the
rest. -/
def takeDigits : Nat → Nat → List UInt8 → Nat × Nat × List UInt8
  | n, k, b :: rest =>
    if isDigit b && n * 10 + digit b < Nat.pow 2 64 then takeDigits (n * 10 + digit b) (k + 1) rest
    else (n, k, b :: rest)
  | n, k, [] => (n, k, [])

def greatestPower : Nat := 308

def tenTo (n : Nat) : Binary := double.ofDecimal false 1 n

/-- `significand * 10 ^ exponent`, or nothing when it is too great. Far below, the value is first brought
up by the greatest power. -/
def scale (significand : Nat) (exponent : Int) : Option Binary :=
  let x := double.ofNat significand
  if greatestPower < exponent then if significand = 0 then some x else none
  else if 0 ≤ exponent then
    match Binary.mul double x (tenTo exponent.toNat) with
    | .infinite _ => none
    | y => some y
  else
    let down := exponent.natAbs
    let steps := min ((down - 1) / greatestPower) 3
    let y := (List.replicate steps (tenTo greatestPower)).foldl (Binary.div double) x
    if y.isZero then some y else some (Binary.div double y (tenTo (min (down - steps * greatestPower) greatestPower)))

def finishReal (negative : Bool) (significand : Nat) (exponent : Int) (rest : List UInt8) :
    Except Fault (Numeral × List UInt8) :=
  match scale significand exponent with
  | some x => .ok (.real (if negative then x.negate else x), rest)
  | none => .error (.before .numberTooGreat rest)

def exponentDigits : Nat → List UInt8 → Except (List UInt8) (Nat × List UInt8)
  | n, b :: rest =>
    if isDigit b then
      if 2147483647 < n * 10 + digit b then .error rest else exponentDigits (n * 10 + digit b) rest
    else .ok (n, b :: rest)
  | n, [] => .ok (n, [])

def exponentPart (negative : Bool) (significand : Nat) (start : Int) (rest : List UInt8) :
    Except Fault (Numeral × List UInt8) :=
  let (down, rest) := match rest with
    | 43 :: r => (false, r)
    | 45 :: r => (true, r)
    | r => (false, r)
  match rest with
  | [] => .error (.before .endInValue [])
  | b :: rest =>
    if !isDigit b then .error (.before .invalidNumber rest)
    else match exponentDigits (digit b) rest with
      | .ok (n, rest) => finishReal negative significand (if down then start - n else start + n) rest
      | .error rest =>
        if significand != 0 && !down then .error (.before .numberTooGreat rest)
        else .ok (.real (.finite negative 0 double.least), rest.dropWhile isDigit)

def isExponent (b : UInt8) : Bool := b == 101 || b == 69

def fractionPart (negative : Bool) (significand : Nat) (start : Int) (rest : List UInt8) :
    Except Fault (Numeral × List UInt8) :=
  let (significand, places, rest) := takeDigits significand 0 rest
  let after := rest.dropWhile isDigit
  if places = 0 && after.length = rest.length then
    match rest with
    | [] => .error (.before .endInValue [])
    | _ => .error (.on .invalidNumber rest)
  else match after with
    | b :: r =>
      if isExponent b then exponentPart negative significand (start - places) r
      else finishReal negative significand (start - places) after
    | [] => finishReal negative significand (start - places) after

/-- What a whole number of 64 bits is with its sign: below the least integer, and at minus zero, it is
kept as a binary value. -/
def wholeNumber (negative : Bool) (significand : Nat) : Numeral :=
  if !negative then .integer significand
  else if significand = 0 || Nat.pow 2 63 < significand then .real (double.ofNat significand).negate
  else .integer (-significand)

def numberTail (negative : Bool) (significand dropped : Nat) (rest : List UInt8) :
    Except Fault (Numeral × List UInt8) :=
  match rest with
  | 46 :: r => fractionPart negative significand dropped r
  | b :: r =>
    if isExponent b then exponentPart negative significand dropped r
    else if dropped = 0 then .ok (wholeNumber negative significand, rest)
    else finishReal negative significand dropped rest
  | [] =>
    if dropped = 0 then .ok (wholeNumber negative significand, [])
    else finishReal negative significand dropped []

def unsignedNumber (negative : Bool) : List UInt8 → Except Fault (Numeral × List UInt8)
  | [] => .error (.before .endInValue [])
  | b :: rest =>
    if b == 48 then
      match rest with
      | c :: _ => if isDigit c then .error (.on .invalidNumber rest) else numberTail negative 0 0 rest
      | [] => numberTail negative 0 0 rest
    else if isDigit b then
      let (significand, _, rest) := takeDigits 0 0 (b :: rest)
      let after := rest.dropWhile isDigit
      numberTail negative significand (rest.length - after.length) after
    else .error (.before .invalidNumber rest)

def number : List UInt8 → Except Fault (Numeral × List UInt8)
  | 45 :: rest => unsignedNumber true rest
  | rest => unsignedNumber false rest

def letterEscape (b : UInt8) : Option UInt8 :=
  if b == 34 || b == 92 || b == 47 then some b
  else if b == 98 then some 8
  else if b == 102 then some 12
  else if b == 110 then some 10
  else if b == 114 then some 13
  else if b == 116 then some 9
  else none

def hexDigit (b : UInt8) : Option Nat :=
  if 48 ≤ b && b ≤ 57 then some (b.toNat - 48)
  else if 65 ≤ b && b ≤ 70 then some (b.toNat - 55)
  else if 97 ≤ b && b ≤ 102 then some (b.toNat - 87)
  else none

def hexUnit : List UInt8 → Except Fault (Nat × List UInt8)
  | a :: b :: c :: d :: rest =>
    match hexDigit a, hexDigit b, hexDigit c, hexDigit d with
    | some a, some b, some c, some d => .ok (((a * 16 + b) * 16 + c) * 16 + d, rest)
    | _, _, _, _ => .error (.before .invalidEscape rest)
  | _ => .error (.before .endInText [])

def lowHalf (high : Nat) : List UInt8 → Except Fault (Char × List UInt8)
  | 92 :: 117 :: rest =>
    match hexUnit rest with
    | .error f => .error f
    | .ok (low, rest) =>
      if 0xDC00 ≤ low && low ≤ 0xDFFF then
        .ok (Char.ofNat ((high - 0xD800) * 0x400 + (low - 0xDC00) + 0x10000), rest)
      else .error (.before .loneSurrogate rest)
  | [] | [92] => .error (.before .endInText [])
  | 92 :: rest => .error (.on .brokenPair rest)
  | rest => .error (.on .brokenPair rest)

def escapeBytes : List UInt8 → Except Fault (List UInt8 × List UInt8)
  | [] => .error (.before .endInText [])
  | 117 :: rest =>
    match hexUnit rest with
    | .error f => .error f
    | .ok (n, rest) =>
      if 0xDC00 ≤ n && n ≤ 0xDFFF then .error (.before .loneSurrogate rest)
      else if 0xD800 ≤ n && n ≤ 0xDBFF then
        (lowHalf n rest).map fun (c, rest) => (String.utf8EncodeChar c, rest)
      else .ok (String.utf8EncodeChar (Char.ofNat n), rest)
  | b :: rest =>
    match letterEscape b with
    | some c => .ok ([c], rest)
    | none => .error (.before .invalidEscape rest)

/-- After the opening quote: the bytes of the text. Each step reads a byte, so the fuel is the length. -/
def textBytes : Nat → List UInt8 → Except Fault (List UInt8 × List UInt8)
  | 0, _ | _, [] => .error (.before .endInText [])
  | fuel + 1, b :: rest =>
    if b == 34 then .ok ([], rest)
    else if b == 92 then
      match escapeBytes rest with
      | .error f => .error f
      | .ok (bs, rest) => (textBytes fuel rest).map fun (t, rest) => (bs ++ t, rest)
    else if b < 32 then .error (.before .controlCharacter rest)
    else (textBytes fuel rest).map fun (t, rest) => (b :: t, rest)

/-- After the opening quote: the text, which has to be UTF-8. A fault is placed by counting back from the
closing quote the bytes of the text, escapes resolved, that come after the valid ones. -/
def text (rest : List UInt8) : Except Fault (String × List UInt8) :=
  match textBytes rest.length rest with
  | .error f => .error f
  | .ok (bytes, after) =>
    match Text.Utf8.decode? bytes with
    | some s => .ok (s, after)
    | none =>
      let invalid := bytes.length - (Text.Utf8.validUpTo 0 bytes).getD 0
      .error (.before .invalidCharacter (rest.drop (rest.length - after.length - invalid)))

/-- After the opening quote of a text that nobody wants: its escapes are known, its characters are not
looked at. The digits of an escape, once checked, are passed over like any characters. -/
def skipText : List UInt8 → Except Fault (List UInt8)
  | [] => .error (.before .endInText [])
  | [92] => .error (.before .endInText [])
  | 34 :: rest => .ok rest
  | 92 :: 117 :: rest =>
    match hexUnit rest with
    | .error f => .error f
    | .ok _ => skipText rest
  | 92 :: e :: rest =>
    if (letterEscape e).isSome then skipText rest else .error (.before .invalidEscape rest)
  | b :: rest => if b < 32 then .error (.before .controlCharacter (b :: rest)) else skipText rest

def skipExponent (rest : List UInt8) : Except Fault (List UInt8) :=
  let rest := match rest with
    | 43 :: r | 45 :: r => r
    | r => r
  match rest with
  | [] => .error (.before .invalidNumber [])
  | b :: r => if isDigit b then .ok (r.dropWhile isDigit) else .error (.before .invalidNumber r)

def skipNumberTail (rest : List UInt8) : Except Fault (List UInt8) :=
  match rest with
  | 46 :: r =>
    let after := r.dropWhile isDigit
    if after.length = r.length then .error (.on .invalidNumber r)
    else match after with
      | b :: s => if isExponent b then skipExponent s else .ok after
      | [] => .ok []
  | b :: r => if isExponent b then skipExponent r else .ok rest
  | [] => .ok []

def skipUnsigned : List UInt8 → Except Fault (List UInt8)
  | [] => .error (.before .invalidNumber [])
  | b :: rest =>
    if b == 48 then
      match rest with
      | c :: _ => if isDigit c then .error (.on .invalidNumber rest) else skipNumberTail rest
      | [] => .ok []
    else if isDigit b then skipNumberTail (rest.dropWhile isDigit)
    else .error (.before .invalidNumber rest)

end CampaignSettlement.Json
