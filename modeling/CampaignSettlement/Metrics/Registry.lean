import CampaignSettlement.Metrics.Services

/-!
The registries of the three services side by side. The family of error responses can join each of them
once; responses are counted where it joined last.
-/
namespace CampaignSettlement.Metrics

inductive Owner
  | settlement
  | aggregation
  | admission
deriving DecidableEq, Repr

namespace Owner

def named : List (String × Owner) :=
  [("settlement", settlement), ("aggregation", aggregation), ("admission", admission)]

def ofName? (s : String) : Option Owner := named.lookup s

end Owner

inductive RegistrationFault
  | duplicate
deriving DecidableEq, Repr

def RegistrationFault.message : RegistrationFault → String
  | duplicate => "Duplicate metrics collector registration attempted"

structure Registries where
  settlement : Settlement := {}
  aggregation : Aggregation := {}
  admission : Admission := {}
  errors : List (Owner × HttpErrors) := []
deriving DecidableEq, Repr

namespace Registries

def families (r : Registries) : Owner → List Family
  | .settlement => r.settlement.families
  | .aggregation => r.aggregation.families
  | .admission => r.admission.families

def text (r : Registries) (o : Owner) : String := exposition (withHttpErrors (r.families o) (r.errors.lookup o))

def joinErrors (r : Registries) (o : Owner) : Except RegistrationFault Registries :=
  if (r.errors.lookup o).isSome then .error .duplicate else .ok { r with errors := (o, []) :: r.errors }

/-- Without a registry for them, responses are not counted. -/
def countError (r : Registries) (service code status : String) (n : UInt64) : Registries :=
  match r.errors with
  | [] => r
  | (o, e) :: rest => { r with errors := (o, e.count service code status n) :: rest }

end Registries

end CampaignSettlement.Metrics
