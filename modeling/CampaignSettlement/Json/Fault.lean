import CampaignSettlement.Json.Value
import CampaignSettlement.Text.Quoted

/-!
Why a JSON text is refused, and where. A place is what is still unread, so that readers need not count;
line and column are worked out from the whole text when the message is written.
-/
namespace CampaignSettlement.Json

open Number (Binary double)

inductive Category
  | malformed
  | unsuitable
  | unfinished
deriving DecidableEq, Repr

inductive Found
  | null
  | bool (b : Bool)
  | integer (i : Int)
  | real (x : Binary)
  | text (s : String)
  | list
  | object
deriving Repr

def Found.describe : Found → String
  | null => "null"
  | bool b => "boolean `" ++ (if b then "true" else "false") ++ "`"
  | integer i => "integer `" ++ toString i ++ "`"
  | real x => "floating point `" ++ x.jsonText double ++ "`"
  | text s => "string " ++ Text.quoted s
  | list => "sequence"
  | object => "map"

inductive Cause
  | endInValue
  | endInList
  | endInObject
  | endInText
  | valueExpected
  | wordExpected
  | colonExpected
  | objectCommaExpected
  | listCommaExpected
  | keyNotText
  | trailingComma
  | trailing
  | invalidNumber
  | numberTooGreat
  | controlCharacter
  | invalidEscape
  | invalidCharacter
  | loneSurrogate
  | brokenPair
  | wrongType (found : Found) (expected : String)
  | outOfRange (i : Int) (expected : String)
  | missing (name : String)
  | repeated (name : String)
  | unknownVariant (name : String) (known : List String)
  | wrongLength (length : Nat) (record : String) (size : Nat)
  | refused (reason : String)
deriving Repr

def Cause.category : Cause → Category
  | endInValue | endInList | endInObject | endInText => .unfinished
  | wrongType .. | outOfRange .. | missing _ | repeated _ | unknownVariant .. | wrongLength ..
  | refused _ => .unsuitable
  | _ => .malformed

def inTicks (s : String) : String := "`" ++ s ++ "`"

def Cause.message : Cause → String
  | endInValue => "EOF while parsing a value"
  | endInList => "EOF while parsing a list"
  | endInObject => "EOF while parsing an object"
  | endInText => "EOF while parsing a string"
  | valueExpected => "expected value"
  | wordExpected => "expected ident"
  | colonExpected => "expected `:`"
  | objectCommaExpected => "expected `,` or `\x7d`"
  | listCommaExpected => "expected `,` or `]`"
  | keyNotText => "key must be a string"
  | trailingComma => "trailing comma"
  | trailing => "trailing characters"
  | invalidNumber => "invalid number"
  | numberTooGreat => "number out of range"
  | controlCharacter => "control character (\\u0000-\\u001F) found while parsing a string"
  | invalidEscape => "invalid escape"
  | invalidCharacter => "invalid unicode code point"
  | loneSurrogate => "lone leading surrogate in hex escape"
  | brokenPair => "unexpected end of hex escape"
  | wrongType found expected => "invalid type: " ++ found.describe ++ ", expected " ++ expected
  | outOfRange i expected => "invalid value: integer " ++ inTicks (toString i) ++ ", expected " ++ expected
  | missing name => "missing field " ++ inTicks name
  | repeated name => "duplicate field " ++ inTicks name
  | unknownVariant name known =>
    "unknown variant " ++ inTicks name ++ ", expected " ++ String.intercalate " or " (known.map inTicks)
  | wrongLength length record size =>
    "invalid length " ++ toString length ++ ", expected struct " ++ record ++ " with " ++ toString size ++
      (if size = 1 then " element" else " elements")
  | refused reason => reason

/-- `unread` is what follows the place of the fault, `path` the keys and positions that lead to the value
it lies in, outermost first. -/
structure Fault where
  cause : Cause
  unread : List UInt8
  path : List String
deriving Repr

namespace Fault

def before (c : Cause) (rest : List UInt8) : Fault := ⟨c, rest, []⟩

/-- A fault of the first byte of `rest`, which is counted in. -/
def on (c : Cause) (rest : List UInt8) : Fault := ⟨c, rest.drop 1, []⟩

def within (step : String) (f : Fault) : Fault := { f with path := step :: f.path }

def position (input : List UInt8) (f : Fault) : Nat × Nat :=
  let read := input.take (input.length - f.unread.length)
  (read.count 10 + 1, (read.reverse.takeWhile (· != 10)).length)

def message (input : List UInt8) (f : Fault) : String :=
  let (line, column) := f.position input
  f.cause.message ++ " at line " ++ toString line ++ " column " ++ toString column

def pathText : List String → String
  | [] => ""
  | s :: ss => ss.foldl (fun t step => if step.startsWith "[" then t ++ step else t ++ "." ++ step) s

def messageWithPath (input : List UInt8) (f : Fault) : String :=
  if f.path.isEmpty then f.message input else pathText f.path ++ ": " ++ f.message input

end Fault

end CampaignSettlement.Json
