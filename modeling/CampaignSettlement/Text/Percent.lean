import CampaignSettlement.Text.Utf8

/-!
Percent escapes of paths and forms. An escape needs two hexadecimal digits; a percent sign without them
stands for itself. A form writes a blank as `+`, separates pairs by `&`, and a name from its value by
the first `=`.
-/
namespace CampaignSettlement.Text.Percent

def hexValue (b : UInt8) : Option UInt8 :=
  if 48 ≤ b && b ≤ 57 then some (b - 48)
  else if 65 ≤ b && b ≤ 70 then some (b - 55)
  else if 97 ≤ b && b ≤ 102 then some (b - 87)
  else none

def decode : List UInt8 → List UInt8
  | [] => []
  | 37 :: h :: l :: r =>
    match hexValue h, hexValue l with
    | some a, some b => (a * 16 + b) :: decode r
    | _, _ => 37 :: decode (h :: l :: r)
  | b :: r => b :: decode r

def splitAt (sep : UInt8) : List UInt8 → List (List UInt8)
  | [] => [[]]
  | b :: r =>
    if b == sep then [] :: splitAt sep r
    else match splitAt sep r with
      | [] => [[b]]
      | p :: ps => (b :: p) :: ps

def formText (bytes : List UInt8) : String :=
  Utf8.lossy (decode (bytes.map fun b => if b == 43 then 32 else b))

def formPair (part : List UInt8) : String × String :=
  (formText (part.takeWhile (· != 61)), formText ((part.dropWhile (· != 61)).drop 1))

def form (query : String) : List (String × String) :=
  ((splitAt 38 (Utf8.encode query)).filter (!·.isEmpty)).map formPair

end CampaignSettlement.Text.Percent
