/-!
UTF-8 over lists of bytes: writing, strict reading, and a lossy reading that never fails. A lead byte
fixes how many bytes follow and the bounds of the first of them; the others are continuation bytes.
A sequence that breaks off is one invalid piece as far as it was right, so each piece costs one
replacement character.
-/
namespace CampaignSettlement.Text.Utf8

def encode (s : String) : List UInt8 := s.toList.flatMap String.utf8EncodeChar

/-- How many bytes follow a lead byte, and the bounds of the first of them. -/
def following (b : UInt8) : Option (Nat × UInt8 × UInt8) :=
  if 0xC2 ≤ b && b ≤ 0xDF then some (1, 0x80, 0xBF)
  else if b == 0xE0 then some (2, 0xA0, 0xBF)
  else if b == 0xED then some (2, 0x80, 0x9F)
  else if 0xE1 ≤ b && b ≤ 0xEF then some (2, 0x80, 0xBF)
  else if b == 0xF0 then some (3, 0x90, 0xBF)
  else if 0xF1 ≤ b && b ≤ 0xF3 then some (3, 0x80, 0xBF)
  else if b == 0xF4 then some (3, 0x80, 0x8F)
  else none

def tails : Nat → UInt8 → UInt8 → List UInt8 → List UInt8
  | n + 1, lo, hi, b :: r => if lo ≤ b && b ≤ hi then b :: tails n 0x80 0xBF r else []
  | _, _, _, _ => []

def leadBits (n : Nat) (b : UInt8) : Nat :=
  if n = 1 then b.toNat - 0xC0 else if n = 2 then b.toNat - 0xE0 else b.toNat - 0xF0

/-- What stands first in `b :: r`: a character, or an invalid piece; with the number of bytes after `b`
that belong to it. -/
def first (b : UInt8) (r : List UInt8) : Option Char × Nat :=
  if b < 0x80 then (some (Char.ofUInt8 b), 0)
  else match following b with
    | none => (none, 0)
    | some (n, lo, hi) =>
      let ts := tails n lo hi r
      if ts.length = n then
        (some (Char.ofNat (ts.foldl (fun v t => v * 64 + (t.toNat - 0x80)) (leadBits n b))), n)
      else (none, ts.length)

def pieces : Nat → List UInt8 → List (Option Char)
  | _, [] => []
  | skip + 1, _ :: r => pieces skip r
  | 0, b :: r => (first b r).1 :: pieces (first b r).2 r

/-- Each invalid piece becomes U+FFFD. -/
def lossy (bytes : List UInt8) : String :=
  String.ofList ((pieces 0 bytes).map (·.getD '\uFFFD'))

def allSome {α : Type} : List (Option α) → Option (List α)
  | [] => some []
  | none :: _ => none
  | some a :: r => (allSome r).map (a :: ·)

def decode? (bytes : List UInt8) : Option String := (allSome (pieces 0 bytes)).map String.ofList

def validUpTo : Nat → List UInt8 → Option Nat
  | _, [] => none
  | skip + 1, _ :: r => (validUpTo skip r).map (· + 1)
  | 0, b :: r => match first b r with
    | (none, _) => some 0
    | (some _, n) => (validUpTo n r).map (· + 1)

end CampaignSettlement.Text.Utf8
