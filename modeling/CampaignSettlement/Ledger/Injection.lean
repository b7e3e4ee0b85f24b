import CampaignSettlement.Ledger.Store

/-!
Failures injected at the calls of a store. Each waits for its call, lets some pass, and then strikes a
number of times. At a call the injections are looked at in their order until one strikes.
-/
namespace CampaignSettlement.Ledger

structure Injection (ι : Type) (φ : Type) where
  call : ι
  fault : φ
  skip : Nat
  times : Nat
deriving DecidableEq, Repr

namespace Injection

variable {ι φ : Type} [BEq ι]

def strike (i : ι) : List (Injection ι φ) → Option φ × List (Injection ι φ)
  | [] => (none, [])
  | j :: js =>
    if j.call == i && j.times != 0 then
      if j.skip = 0 then (some j.fault, { j with times := j.times - 1 } :: js)
      else
        let (f, js) := strike i js
        (f, { j with skip := j.skip - 1 } :: js)
    else
      let (f, js) := strike i js
      (f, j :: js)

end Injection

inductive CallKind
  | begin
  | known
  | decrement
  | append
  | commit
  | rollback
deriving DecidableEq, Repr

namespace CallKind

def named : List (String × CallKind) :=
  [("begin", begin), ("exists", known), ("decrement", decrement), ("append", append), ("commit", commit),
    ("rollback", rollback)]

def ofName? (s : String) : Option CallKind := named.lookup s

end CallKind

def StoreCall.kind : StoreCall → CallKind
  | begin => .begin
  | known .. => .known
  | decrement .. => .decrement
  | append .. => .append
  | commit _ => .commit
  | rollback _ => .rollback

structure Faulty (σ : Type) where
  inner : σ
  injections : List (Injection CallKind Fault)

namespace Faulty

variable {σ : Type}

/-- A struck call does not reach the store, except that a struck commit or rollback rolls back. -/
def settle (s : Settler σ) : Settler (Faulty σ) := fun f c =>
  let (struck, left) := Injection.strike c.kind f.injections
  match struck with
  | none =>
    let (inner, reply) := s f.inner c
    (⟨inner, left⟩, reply)
  | some fault =>
    match c with
    | .commit work | .rollback work => (⟨(s f.inner (.rollback work)).1, left⟩, .error fault)
    | _ => (⟨f.inner, left⟩, .error fault)

end Faulty

end CampaignSettlement.Ledger
