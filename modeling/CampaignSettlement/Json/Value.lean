import CampaignSettlement.Number.Shortest

/-!
JSON values with the members of an object in their written order, and their compact text. A text escapes
quotes, backslashes and control characters; all else stands as it is.
-/
namespace CampaignSettlement.Json

open Number (Binary double)

inductive Value
  | null
  | bool (b : Bool)
  | int (i : Int)
  | real (x : Binary)
  | str (s : String)
  | arr (items : List Value)
  | obj (members : List (String × Value))

def escaped (c : Char) : List Char :=
  match c with
  | '"' => ['\\', '"']
  | '\\' => ['\\', '\\']
  | '\x08' => ['\\', 'b']
  | '\t' => ['\\', 't']
  | '\n' => ['\\', 'n']
  | '\x0c' => ['\\', 'f']
  | '\r' => ['\\', 'r']
  | c =>
    if c.toNat < 0x20 then
      ['\\', 'u', '0', '0', Nat.digitChar (c.toNat / 16), Nat.digitChar (c.toNat % 16)]
    else [c]

def quote (s : String) : List Char := '"' :: (s.toList.flatMap escaped ++ ['"'])

def joined (sep : Char) : List (List Char) → List Char
  | [] => []
  | [p] => p
  | p :: ps => p ++ sep :: joined sep ps

mutual

def Value.chars : Value → List Char
  | .null => "null".toList
  | .bool b => (if b then "true" else "false").toList
  | .int i => (toString i).toList
  | .real x => (x.jsonText double).toList
  | .str s => quote s
  | .arr items => '[' :: (joined ',' (itemChars items) ++ [']'])
  | .obj members => '\x7b' :: (joined ',' (memberChars members) ++ ['\x7d'])

def itemChars : List Value → List (List Char)
  | [] => []
  | v :: vs => v.chars :: itemChars vs

def memberChars : List (String × Value) → List (List Char)
  | [] => []
  | (k, v) :: ms => (quote k ++ ':' :: v.chars) :: memberChars ms

end

def Value.render (v : Value) : String := String.ofList v.chars

namespace Value

def nat (n : Nat) : Value := .int n

def option {α : Type} (f : α → Value) : Option α → Value
  | none => .null
  | some a => f a

def list {α : Type} (f : α → Value) (as : List α) : Value := .arr (as.map f)

end Value

example : (Value.obj [("a", .arr [.int (-1), .null]), ("b\n", .str "\"")]).render
    = "\x7b\"a\":[-1,null],\"b\\n\":\"\\\"\"\x7d" := by decide +kernel

end CampaignSettlement.Json
