import CampaignSettlement.Text.Printable
import CampaignSettlement.Text.Utf8

/-!
A text in double quotes, for messages: quotes, backslashes and what would not show are escaped.
-/
namespace CampaignSettlement.Text

def quotedChar (c : Char) : List Char :=
  match c with
  | '\x00' => ['\\', '0']
  | '\t' => ['\\', 't']
  | '\n' => ['\\', 'n']
  | '\r' => ['\\', 'r']
  | '"' => ['\\', '"']
  | '\\' => ['\\', '\\']
  | c =>
    if isExtending c || !isPrintable c then
      ['\\', 'u', '\x7b'] ++ Nat.toDigits 16 c.toNat ++ ['\x7d']
    else [c]

def quoted (s : String) : String :=
  String.ofList ('"' :: (s.toList.flatMap quotedChar ++ ['"']))

def quotedByte (b : UInt8) : List Char :=
  let digit (n : Nat) : Char := (Nat.digitChar n).toUpper
  ['\\', 'x', digit (b.toNat / 16), digit (b.toNat % 16)]

def quotedPieces : Nat → List UInt8 → List Char
  | _, [] => []
  | skip + 1, _ :: r => quotedPieces skip r
  | 0, b :: r =>
    match Utf8.first b r with
    | (some c, n) => quotedChar c ++ quotedPieces n r
    | (none, n) => (b :: r.take n).flatMap quotedByte ++ quotedPieces n r

def quotedBytes (bs : List UInt8) : String := String.ofList ('"' :: (quotedPieces 0 bs ++ ['"']))

end CampaignSettlement.Text
