/-!
White space of Unicode, and trimming. Core's own class knows the ASCII blanks only; the class here is
the property White_Space as a whole.
-/
namespace CampaignSettlement.Text

def isBlank (c : Char) : Bool :=
  let n := c.toNat
  (9 ≤ n && n ≤ 13) || n == 0x20 || n == 0x85 || n == 0xA0 || n == 0x1680 ||
    (0x2000 ≤ n && n ≤ 0x200A) || n == 0x2028 || n == 0x2029 || n == 0x202F || n == 0x205F || n == 0x3000

def trimLeft (cs : List Char) : List Char := cs.dropWhile isBlank

def trim (s : String) : String :=
  String.ofList (trimLeft (trimLeft s.toList).reverse).reverse

def lower (s : String) : String := String.ofList (s.toList.map Char.toLower)

def isDigit (c : Char) : Bool := '0' ≤ c && c ≤ '9'

def digitValue (c : Char) : Nat := c.toNat - '0'.toNat

end CampaignSettlement.Text
