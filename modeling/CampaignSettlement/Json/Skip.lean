import CampaignSettlement.Json.Token

/-!
Passing over a value that nobody wants. The open lists and objects are a stack, so nesting has no limit.
Numbers and escapes keep their grammar; the characters of texts are not looked at.
-/
namespace CampaignSettlement.Json

inductive Frame
  | list
  | object
deriving DecidableEq, Repr

/-- Where a pass stands: before a value, or inside the innermost frame, where `comma` tells that a value
has just ended. -/
inductive Stand
  | value
  | inside (comma : Bool)
deriving DecidableEq, Repr

def skipToken (b : UInt8) (rest : List UInt8) : Except Fault (Option Frame × List UInt8) :=
  let plain (r : Except Fault (List UInt8)) : Except Fault (Option Frame × List UInt8) := r.map (none, ·)
  if b == 110 then plain (nullWord rest)
  else if b == 116 then plain (trueWord rest)
  else if b == 102 then plain (falseWord rest)
  else if b == 45 then plain (skipUnsigned rest)
  else if isDigit b then plain (skipUnsigned (b :: rest))
  else if b == 34 then plain (skipText rest)
  else if b == 91 then .ok (some .list, rest)
  else if b == 123 then .ok (some .object, rest)
  else .error (.on .valueExpected (b :: rest))

def skipKey (rest : List UInt8) : Except Fault (List UInt8) :=
  match skipBlanks rest with
  | [] => .error (.before .endInObject [])
  | b :: r =>
    if b != 34 then .error (.on .keyNotText (b :: r))
    else match skipText r with
      | .error f => .error f
      | .ok r =>
        match skipBlanks r with
        | [] => .error (.before .endInObject [])
        | c :: s => if c == 58 then .ok s else .error (.on .colonExpected (c :: s))

/-- Each step reads a byte or opens the way to one, so twice the length is fuel enough. -/
def skipFrom : Nat → Stand → List Frame → List UInt8 → Except Fault (List UInt8)
  | 0, _, _, rest => .error (.before .endInValue rest)
  | fuel + 1, .value, frames, rest =>
    match skipBlanks rest with
    | [] => .error (.before .endInValue [])
    | b :: r =>
      match skipToken b r with
      | .error f => .error f
      | .ok (some frame, r) => skipFrom fuel (.inside false) (frame :: frames) r
      | .ok (none, r) => if frames.isEmpty then .ok r else skipFrom fuel (.inside true) frames r
  | _ + 1, .inside _, [], rest => .ok rest
  | fuel + 1, .inside comma, frame :: frames, rest =>
    let next (r : List UInt8) : Except Fault (List UInt8) :=
      match frame with
      | .list => skipFrom fuel .value (.list :: frames) r
      | .object =>
        match skipKey r with
        | .error f => .error f
        | .ok r => skipFrom fuel .value (.object :: frames) r
    match skipBlanks rest with
    | [] => .error (.before (if frame = .list then .endInList else .endInObject) [])
    | b :: r =>
      if comma && b == 44 then next r
      else if b == (if frame = .list then 93 else 125) then skipFrom fuel (.inside true) frames r
      else if comma then
        .error (.on (if frame = .list then .listCommaExpected else .objectCommaExpected) (b :: r))
      else next (b :: r)

def skip (rest : List UInt8) : Except Fault (List UInt8) := skipFrom (2 * rest.length + 1) .value [] rest

end CampaignSettlement.Json
