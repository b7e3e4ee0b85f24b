import CampaignSettlement.Json.Skip
import CampaignSettlement.Text.Utf8

/-!
The grammar of JSON over bytes, told without a reader. Each relation has the bytes before what it tells of and those
after it, so that one goes on where the other ends. Texts that nobody wants are told by their form alone: their escapes
are known, but not what they say.
-/
namespace CampaignSettlement.Json.Grammar

open String (utf8EncodeChar)
open Text.Utf8 (encode)

def Blanks (bs rest : List UInt8) : Prop := ∃ blanks, (∀ b ∈ blanks, isBlank b = true) ∧ bs = blanks ++ rest

structure Digits (ds : List UInt8) : Prop where
  nonempty : ds ≠ []
  digits : ∀ b ∈ ds, isDigit b = true

/-- Digits of which the first is not zero, or zero alone. -/
structure Whole (ds : List UInt8) : Prop extends Digits ds where
  lead : ds.head? = some 48 → ds = [48]

def valueOf (ds : List UInt8) : Nat := ds.foldl (fun n b => n * 10 + digit b) 0

/-- An integer literal. With a minus, zero is not one. -/
inductive Integer : List UInt8 → Int → List UInt8 → Prop
  | plain {ds : List UInt8} (whole : Whole ds) (rest : List UInt8) : Integer (ds ++ rest) (valueOf ds) rest
  | minus {ds : List UInt8} (whole : Whole ds) (nonzero : valueOf ds ≠ 0) (rest : List UInt8) :
      Integer (45 :: (ds ++ rest)) (-valueOf ds) rest

inductive Fraction : List UInt8 → List UInt8 → Prop
  | none (rest : List UInt8) : Fraction rest rest
  | point {ds : List UInt8} (digits : Digits ds) (rest : List UInt8) : Fraction (46 :: (ds ++ rest)) rest

def Sign (sign : List UInt8) : Prop := sign = [] ∨ sign = [43] ∨ sign = [45]

inductive Power : List UInt8 → List UInt8 → Prop
  | none (rest : List UInt8) : Power rest rest
  | letter {e : UInt8} {sign ds : List UInt8} (letter : isExponent e = true) (signed : Sign sign) (digits : Digits ds)
      (rest : List UInt8) : Power (e :: (sign ++ (ds ++ rest))) rest

inductive Number : List UInt8 → List UInt8 → Prop
  | plain {ds r s rest : List UInt8} (whole : Whole ds) (fraction : Fraction r s) (power : Power s rest) :
      Number (ds ++ r) rest
  | minus {ds r s rest : List UInt8} (whole : Whole ds) (fraction : Fraction r s) (power : Power s rest) :
      Number (45 :: (ds ++ r)) rest

inductive Hex : List UInt8 → Nat → List UInt8 → Prop
  | four {a b c d : UInt8} {w x y z : Nat} (first : hexDigit a = some w) (second : hexDigit b = some x)
      (third : hexDigit c = some y) (fourth : hexDigit d = some z) (rest : List UInt8) :
      Hex (a :: b :: c :: d :: rest) (((w * 16 + x) * 16 + y) * 16 + z) rest

inductive Escape : List UInt8 → Char → List UInt8 → Prop
  | letter {b c : UInt8} (known : letterEscape b = some c) (rest : List UInt8) :
      Escape (b :: rest) (Char.ofNat c.toNat) rest
  | unit {n : Nat} {bs rest : List UInt8} (hex : Hex bs n rest) (whole : n < 0xD800 ∨ 0xDFFF < n) :
      Escape (117 :: bs) (Char.ofNat n) rest
  | pair {high low : Nat} {bs r rest : List UInt8} (hex : Hex bs high (92 :: 117 :: r))
      (first : 0xD800 ≤ high ∧ high ≤ 0xDBFF) (hex' : Hex r low rest) (second : 0xDC00 ≤ low ∧ low ≤ 0xDFFF) :
      Escape (117 :: bs) (Char.ofNat ((high - 0xD800) * 0x400 + (low - 0xDC00) + 0x10000)) rest

structure Plain (b : UInt8) : Prop where
  quote : b ≠ 34
  backslash : b ≠ 92
  printable : 32 ≤ b.toNat

/-- After the opening quote: the bytes that are meant, up to the closing quote. -/
inductive Meant : List UInt8 → List UInt8 → List UInt8 → Prop
  | close (rest : List UInt8) : Meant (34 :: rest) [] rest
  | escape {bs r t rest : List UInt8} {c : Char} (escape : Escape bs c r) (later : Meant r t rest) :
      Meant (92 :: bs) (utf8EncodeChar c ++ t) rest
  | plain {b : UInt8} {r t rest : List UInt8} (plain : Plain b) (later : Meant r t rest) : Meant (b :: r) (b :: t) rest

/-- After the opening quote: the text `s`, in UTF-8. -/
def Text (bs : List UInt8) (s : String) (rest : List UInt8) : Prop := Meant bs (encode s) rest

inductive AnyText : List UInt8 → List UInt8 → Prop
  | close (rest : List UInt8) : AnyText (34 :: rest) rest
  | letter {e : UInt8} {r rest : List UInt8} (known : (letterEscape e).isSome = true) (later : AnyText r rest) :
      AnyText (92 :: e :: r) rest
  | unit {n : Nat} {bs r rest : List UInt8} (hex : Hex bs n r) (later : AnyText r rest) :
      AnyText (92 :: 117 :: bs) rest
  | plain {b : UInt8} {r rest : List UInt8} (plain : Plain b) (later : AnyText r rest) : AnyText (b :: r) rest

def opening : Frame → UInt8
  | .list => 91
  | .object => 123

def closing : Frame → UInt8
  | .list => 93
  | .object => 125

inductive Label : Frame → List UInt8 → List UInt8 → Prop
  | element (rest : List UInt8) : Label .list rest rest
  | key {bs r s rest : List UInt8} (quote : Blanks bs (34 :: r)) (text : AnyText r s) (colon : Blanks s (58 :: rest)) :
      Label .object bs rest

inductive Scalar : List UInt8 → List UInt8 → Prop
  | null (rest : List UInt8) : Scalar (110 :: 117 :: 108 :: 108 :: rest) rest
  | yes (rest : List UInt8) : Scalar (116 :: 114 :: 117 :: 101 :: rest) rest
  | no (rest : List UInt8) : Scalar (102 :: 97 :: 108 :: 115 :: 101 :: rest) rest
  | number {bs rest : List UInt8} (number : Number bs rest) : Scalar bs rest
  | text {bs rest : List UInt8} (text : AnyText bs rest) : Scalar (34 :: bs) rest

inductive Form
  | value
  | parts (frame : Frame)

inductive Stands : Form → List UInt8 → List UInt8 → Prop
  | scalar {bs rest : List UInt8} (scalar : Scalar bs rest) : Stands .value bs rest
  | empty {frame : Frame} {bs rest : List UInt8} (blanks : Blanks bs (closing frame :: rest)) :
      Stands .value (opening frame :: bs) rest
  | framed {frame : Frame} {bs rest : List UInt8} (parts : Stands (.parts frame) bs (closing frame :: rest)) :
      Stands .value (opening frame :: bs) rest
  | last {frame : Frame} {bs r s t rest : List UInt8} (label : Label frame bs r) (before : Blanks r s)
      (value : Stands .value s t) (after : Blanks t rest) : Stands (.parts frame) bs rest
  | comma {frame : Frame} {bs r s t u rest : List UInt8} (label : Label frame bs r) (before : Blanks r s)
      (value : Stands .value s t) (after : Blanks t (44 :: u)) (later : Stands (.parts frame) u rest) :
      Stands (.parts frame) bs rest

abbrev Value : List UInt8 → List UInt8 → Prop := Stands .value

/-- What is told of the value of a pair: the integer that it is, or no more than that it is a value. -/
inductive Content
  | integer (i : Int)
  | value

inductive Holds : Content → List UInt8 → List UInt8 → Prop
  | integer {i : Int} {bs rest : List UInt8} (integer : Integer bs i rest) : Holds (.integer i) bs rest
  | value {bs rest : List UInt8} (value : Value bs rest) : Holds .value bs rest

/-- A key and its value. -/
inductive Pair (k : String) (c : Content) : List UInt8 → List UInt8 → Prop
  | colon {bs r s t u v rest : List UInt8} (quote : Blanks bs (34 :: r)) (key : Text r k s) (colon : Blanks s (58 :: t))
      (before : Blanks t u) (value : Holds c u v) (after : Blanks v rest) : Pair k c bs rest

inductive Pairs : List (String × Content) → List UInt8 → List UInt8 → Prop
  | last {k : String} {c : Content} {bs rest : List UInt8} (pair : Pair k c bs rest) : Pairs [(k, c)] bs rest
  | comma {k : String} {c : Content} {ps : List (String × Content)} {bs r rest : List UInt8}
      (pair : Pair k c bs (44 :: r)) (later : Pairs ps r rest) : Pairs ((k, c) :: ps) bs rest

inductive Object : List (String × Content) → List UInt8 → List UInt8 → Prop
  | empty {bs rest : List UInt8} (blanks : Blanks bs (125 :: rest)) : Object [] (123 :: bs) rest
  | pairs {ps : List (String × Content)} {bs rest : List UInt8} (pairs : Pairs ps bs (125 :: rest)) :
      Object ps (123 :: bs) rest

inductive Two (i j : Int) : List UInt8 → List UInt8 → Prop
  | list {bs r s t u v rest : List UInt8} (before : Blanks bs r) (first : Integer r i s) (comma : Blanks s (44 :: t))
      (between : Blanks t u) (second : Integer u j v) (after : Blanks v (93 :: rest)) : Two i j (91 :: bs) rest

end CampaignSettlement.Json.Grammar
