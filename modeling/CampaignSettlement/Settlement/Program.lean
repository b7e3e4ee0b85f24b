import CampaignSettlement.Ledger.Store
import CampaignSettlement.Settlement.Backoff
import CampaignSettlement.Settlement.Reason

/-!
Settlement as programs. A program is a result, or a question to its surroundings and how it goes on after
each answer. What the surroundings are is left open: a program can be run against any states and any way
of answering, and several programs can take turns over one state, a question at a time.
-/
namespace CampaignSettlement.Settlement

open Calendar (Instant)
open Ledger (Entry Fault Result StoreCall)
open Wire (Envelope)

inductive Measure
  | settled (r : Result)
  | deadLettered
  | letters (reason : Reason) (messages : Nat)
  | publishFailure
  | retry
  | ackFailure
  | sequence (current : Int)
  | batchDone
deriving DecidableEq, Repr

inductive Ask
  | store (c : StoreCall)
  | draw
  | current
  | now
  | publish (key : String) (e : Envelope)
  | wait (d : Duration)
  | measure (m : Measure)
  /-- Takes messages out of the account of a partition's queue. -/
  | account (partition : Int) (messages : Nat)
  | ack (partition offset : Int)
deriving DecidableEq, Repr

inductive AckReply
  | done
  | failed (f : AckFault)
  /-- The worker does not survive. -/
  | broken
deriving DecidableEq, Repr

/-- The answer to `publish` tells whether the envelope was taken. -/
abbrev Ask.Reply : Ask → Type
  | store c => c.Reply
  | draw | current => Int
  | now => Instant
  | publish .. => Bool
  | wait _ | measure _ | account .. => Unit
  | ack .. => AckReply

inductive Program (α : Type) : Type
  | done (a : α)
  | ask (q : Ask) (next : q.Reply → Program α)

namespace Program

variable {α β σ : Type}

def bind : Program α → (α → Program β) → Program β
  | done a, f => f a
  | ask q next, f => ask q fun r => (next r).bind f

instance : Monad Program where
  pure := done
  bind := bind

def query (q : Ask) : Program q.Reply := ask q done

def run (answer : σ → (q : Ask) → σ × q.Reply) : Program α → σ → σ × α
  | done a, s => (s, a)
  | ask q next, s => (next (answer s q).2).run answer (answer s q).1

@[simp] theorem pure_eq (a : α) : (pure a : Program α) = done a := rfl

@[simp] theorem bind_eq (p : Program α) (f : α → Program β) : p >>= f = p.bind f := rfl

@[simp] theorem bind_done (a : α) (f : α → Program β) : (done a).bind f = f a := rfl

@[simp] theorem bind_ask (q : Ask) (next : q.Reply → Program α) (f : α → Program β) :
    (ask q next).bind f = ask q fun r => (next r).bind f := rfl

theorem bind_assoc {γ : Type} (p : Program α) (f : α → Program β) (g : β → Program γ) :
    (p.bind f).bind g = p.bind fun a => (f a).bind g := by
  induction p with
  | done a => rfl
  | ask q next ih => simp only [bind_ask, ih]

theorem run_bind (answer : σ → (q : Ask) → σ × q.Reply) (p : Program α) (f : α → Program β) (s : σ) :
    (p.bind f).run answer s = (f (p.run answer s).2).run answer (p.run answer s).1 := by
  induction p generalizing s with
  | done a => rfl
  | ask q next ih => simp only [bind_ask, run, ih]

end Program

end CampaignSettlement.Settlement
