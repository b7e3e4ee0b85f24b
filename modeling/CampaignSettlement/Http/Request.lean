import CampaignSettlement.Http.Response
import CampaignSettlement.Json.Reader
import CampaignSettlement.Number.Literal
import CampaignSettlement.Text.Percent

/-!
Requests, and what handlers take from them: the number in the path, the members of the query, the value
in the body. Each has its own answer when it cannot be had.
-/
namespace CampaignSettlement.Http

structure Request where
  method : String
  uri : String
  headers : List (String × List UInt8)
  body : List UInt8

def isScheme (c : Char) : Bool := c.isAlphanum || "+-.~".toList.contains c

def afterHost (cs : List Char) : List Char := cs.dropWhile fun c => !"/?#".toList.contains c

namespace Request

/-- Path, query and fragment: the whole target when it starts with a slash, what follows the host after a
scheme. Any other target is a host alone, or the star for the server as a whole. -/
def local? (r : Request) : Option (List Char) :=
  match r.uri.toList with
  | '/' :: cs => some ('/' :: cs)
  | cs =>
    match cs.dropWhile isScheme with
    | ':' :: '/' :: '/' :: rest => some (afterHost rest)
    | _ => none

def target? (r : Request) : Option (List Char) := r.local?.map (·.takeWhile (· != '#'))

def path (r : Request) : String :=
  match r.target?.map (·.takeWhile (· != '?')) with
  | none => ""
  | some [] => "/"
  | some p => String.ofList p

def query (r : Request) : String :=
  match r.target? with
  | none => ""
  | some t => String.ofList ((t.dropWhile (· != '?')).drop 1)

def segments (r : Request) : List String :=
  ((r.path.toList.drop 1).splitOn '/').map String.ofList

end Request

def isToken (c : Char) : Bool := c.isAlphanum || "!#$%&'*+-.^_`|~".toList.contains c

def isQuotable (c : Char) : Bool := 32 ≤ c.toNat && c.toNat != 127

inductive ParameterPart
  | start
  | name
  | value (isEmpty : Bool)
  | quoted (isEmpty : Bool)
  | afterQuote

def parametersHold : ParameterPart → List Char → Bool
  | .start, [] => true
  | .start, c :: cs =>
    if c == ' ' then parametersHold .start cs else isToken c && parametersHold .name cs
  | .name, [] => false
  | .name, c :: cs =>
    if isToken c then parametersHold .name cs else c == '=' && parametersHold (.value true) cs
  | .value _, [] => true
  | .value isEmpty, c :: cs =>
    if isEmpty && c == '"' then parametersHold (.quoted true) cs
    else if isToken c then parametersHold (.value false) cs
    else !isEmpty && c == ';' && parametersHold .start cs
  | .quoted _, [] => false
  | .quoted isEmpty, c :: cs =>
    if c == '"' && !isEmpty then parametersHold .afterQuote cs
    else isQuotable c && parametersHold (.quoted false) cs
  | .afterQuote, [] => true
  | .afterQuote, c :: cs =>
    if c == ';' then parametersHold .start cs else c == ' ' && parametersHold .afterQuote cs

def suffixSplit (subtype : List Char) : List Char × Option (List Char) :=
  let after := (subtype.reverse.takeWhile (· != '+')).reverse
  let before := subtype.take (subtype.length - after.length - 1)
  if after.length = subtype.length || before.isEmpty then (subtype, none) else (before, some after)

/-- Whether a content type is JSON: `application/json`, or a subtype with the suffix `json`. -/
def isJsonType (value : List UInt8) : Bool :=
  let cs := (Text.Utf8.lossy value).toList.map Char.toLower
  let kind := cs.takeWhile isToken
  match cs.dropWhile isToken with
  | '/' :: rest =>
    let subtype := rest.takeWhile isToken
    let json := "json".toList
    let (name, suffix) := suffixSplit subtype
    let parametersOk := match rest.dropWhile isToken with
      | [] => true
      | ';' :: ps => !subtype.isEmpty && parametersHold .start ps
      | _ => false
    value.all ErrorWatch.isVisible && kind = "application".toList && parametersOk &&
      (name = json || suffix = some json)
  | _ => false

def pathNumber (raw : String) : Except Response Int :=
  match Text.Utf8.decode? (Text.Percent.decode (Text.Utf8.encode raw)) with
  | none => .error (.plain 400 "Invalid URL: Invalid UTF-8 in `id`")
  | some s =>
    match Number.integer Number.int64 s with
    | .ok i => .ok i
    | .error _ => .error (.plain 400 ("Invalid URL: Cannot parse `" ++ Text.quoted s ++ "` to a `i64`"))

/-- A JSON value of the body. What follows the value is not looked at. -/
def bodyValue {α : Type} (reader : Json.Reader α) (r : Request) : Except Response α :=
  if !((r.headers.lookup "content-type").any isJsonType) then
    .error (.plain 415 "Expected request with `Content-Type: application/json`")
  else match Json.opening reader r.body with
    | .ok a => .ok a
    | .error f =>
      let text := f.messageWithPath r.body
      match f.cause.category with
      | .unsuitable =>
        .error (.plain 422 ("Failed to deserialize the JSON body into the target type: " ++ text))
      | _ => .error (.plain 400 ("Failed to parse the request body as JSON: " ++ text))

structure QueryMember (σ : Type) where
  name : String
  filled : σ → Bool
  read : σ → String → Except String σ

def QueryMember.place {σ α : Type} (name : String) (get : σ → Option α) (set : σ → α → σ)
    (read : String → Except String α) : QueryMember σ :=
  ⟨name, fun d => (get d).isSome, fun d s => (read s).map (set d)⟩

def readQuery {σ : Type} (ms : List (QueryMember σ)) : List (String × String) → σ → Except String σ
  | [], d => .ok d
  | (key, value) :: rest, d =>
    match ms.find? (·.name == key) with
    | none => readQuery ms rest d
    | some m =>
      if m.filled d then .error ("duplicate field `" ++ key ++ "`")
      else match m.read d value with
        | .ok d => readQuery ms rest d
        | .error e => .error e

def queryValue {σ α : Type} (ms : List (QueryMember σ)) (empty : σ) (finish : σ → Except String α)
    (r : Request) : Except Response α :=
  let refuse (e : String) : Response := .plain 400 ("Failed to deserialize query string: " ++ e)
  match readQuery ms (Text.Percent.form r.query) empty with
  | .error e => .error (refuse e)
  | .ok d =>
    match finish d with
    | .ok a => .ok a
    | .error name => .error (refuse ("missing field `" ++ name ++ "`"))

end CampaignSettlement.Http
