import CampaignSettlement.Number.Literal
import CampaignSettlement.Text.Quoted

/-!
Settings by name. A setting whose bytes are no text counts as not set wherever there is a default.
-/
namespace CampaignSettlement.Config

open Number (Range)

inductive Setting
  | text (s : String)
  | bytes (b : List UInt8)
deriving DecidableEq, Repr

abbrev Environment := List (String × Setting)

namespace Environment

def text? (env : Environment) (name : String) : Option String :=
  match env.lookup name with
  | some (.text s) => some s
  | _ => none

def textOr (env : Environment) (name default : String) : String := (env.text? name).getD default

def required (env : Environment) (name : String) : Except String String :=
  match env.lookup name with
  | some (.text s) => .ok s
  | some (.bytes b) =>
    .error (name ++ " must be set: environment variable was not valid unicode: " ++ Text.quotedBytes b)
  | none => .error (name ++ " must be set: environment variable not found")

def integerOr (env : Environment) (name : String) (r : Range) (default : Int) : Int :=
  match (env.text? name).map (Number.integer r) with
  | some (.ok i) => i
  | _ => default

def trimmedOr (env : Environment) (name : String) (r : Range) (default : Nat) : Nat :=
  match (env.text? name).map fun s => Number.integer r (Text.trim s) with
  | some (.ok i) => i.toNat
  | _ => default

/-- A switch is on for four words; any other text turns it off. -/
def switch (env : Environment) (name : String) (default : Bool) : Bool :=
  match env.text? name with
  | some s => ["1", "true", "yes", "on"].contains (Text.lower (Text.trim s))
  | none => default

end Environment

def participationTopic : String := "campaign-participation-topic"

end CampaignSettlement.Config
