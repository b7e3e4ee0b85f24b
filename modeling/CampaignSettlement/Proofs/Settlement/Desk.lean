import CampaignSettlement.Proofs.Program.Watch
import CampaignSettlement.Settlement.Batch

/-!
The desk of a batch: which transaction is open for it, which of its messages have been passed in that
transaction and with what entry, and which are still to come. Only the question that is due may be put to
the store. Beside the desk stands a list of the texts that were posted as dead letters.
-/
namespace CampaignSettlement.Settlement

open Ledger (Entry Fault Result StoreCall)
open Wire (Message Persistence)

/-- A message that was passed; one of an unknown campaign has no entry. -/
structure Passed where
  ticket : Ticket
  entry : Option Entry

inductive Step
  | looking
  | taking
  | writing (r : Result)
  /-- A call failed, and the transaction is to be rolled back. -/
  | failing (held : Option Result)

inductive Desk
  | idle (tickets : List Ticket)
  | opened (work : Nat) (front : List Passed) (step : Step) (back : List Ticket)
  | settled (front : List Passed)

def Step.held : Step → Option Result
  | looking | taking => none
  | writing r => some r
  | failing held => held

namespace Desk

/-- The question that is due while a transaction is open. -/
inductive Due (work : Nat) : Step → List Ticket → Ask → Prop
  | look (t : Ticket) (back : List Ticket) : Due work .looking (t :: back) (.store (.known work t.event.campaign))
  | take (t : Ticket) (back : List Ticket) : Due work .taking (t :: back) (.store (.decrement work t.event.campaign))
  | draw (r : Result) {t : Ticket} (back : List Ticket) (h : t.sequence = none) :
      Due work (.writing r) (t :: back) .draw
  | write (r : Result) {t : Ticket} {n : Int} (back : List Ticket) (h : t.sequence = some n) :
      Due work (.writing r) (t :: back) (.store (.append work (t.entry r n)))
  | commit : Due work .looking [] (.store (.commit work))
  | rollback (held : Option Result) (back : List Ticket) : Due work (.failing held) back (.store (.rollback work))

def Counts : Ask → Prop
  | .store _ | .draw => True
  | _ => False

def Foreign : Ask → Prop
  | .account .. | .ack .. => True
  | _ => False

def allows : Desk → Ask → Prop
  | .idle _, q => Counts q → q = .store .begin
  | .opened work _ step back, q => Counts q → Due work step back q
  | .settled _, q => ¬ Counts q

def reopened (front : List Passed) (back : List Ticket) : Desk := .idle (front.map Passed.ticket ++ back)

def go (work : Nat) (front : List Passed) : Step → List Ticket → (q : Ask) → q.Reply → Desk
  | .looking, t :: back, .store (.known ..), .ok true => .opened work front .taking (t :: back)
  | .looking, t :: back, .store (.known ..), .ok false => .opened work (front ++ [⟨t, none⟩]) .looking back
  | .taking, t :: back, .store (.decrement ..), .ok taken =>
    .opened work front (.writing (if taken then .success else .fail)) (t :: back)
  | .writing r, t :: back, .draw, n => .opened work front (.writing r) ({ t with sequence := some n } :: back)
  | .writing _, t :: back, .store (.append _ e), .ok _ => .opened work (front ++ [⟨t, some e⟩]) .looking back
  | _, _, .store (.commit _), .ok _ => .settled front
  | _, back, .store (.commit _), .error _ => reopened front back
  | _, back, .store (.rollback _), _ => reopened front back
  | step, back, .store _, .error _ => .opened work front (.failing step.held) back
  | step, back, _, _ => .opened work front step back

def after : Desk → (q : Ask) → q.Reply → Desk
  | .idle tickets, .store .begin, .ok work => .opened work [] .looking tickets
  | .opened work front step back, q, r => go work front step back q r
  | d, _, _ => d

def work? : Desk → Option Nat
  | opened work _ _ _ => some work
  | _ => none

def written : Desk → List Entry
  | .opened _ front _ _ => front.filterMap Passed.entry
  | _ => []

def committed : Desk → List Entry
  | .settled front => front.filterMap Passed.entry
  | _ => []

theorem written_snoc (work : Nat) (front : List Passed) (t : Ticket) (entry : Option Entry) (step : Step)
    (back : List Ticket) :
    (opened work (front ++ [⟨t, entry⟩]) step back).written = front.filterMap Passed.entry ++ entry.toList := by
  cases entry <;> simp [written]

def front : Desk → List Passed
  | idle _ => []
  | opened _ front _ _ | settled front => front

def tickets : Desk → List Ticket
  | .idle tickets => tickets
  | .opened _ front _ back => front.map Passed.ticket ++ back
  | .settled front => front.map Passed.ticket

end Desk

theorem desk_allows_quiet (d : Desk) {q : Ask} (h : ¬ Desk.Counts q) : d.allows q := by
  cases d with
  | idle tickets => exact fun counts => absurd counts h
  | opened work front step back => exact fun counts => absurd counts h
  | settled front => exact h

theorem desk_after_quiet (d : Desk) {q : Ask} (h : ¬ Desk.Counts q) (r : q.Reply) : d.after q r = d := by
  cases q with
  | store c => exact absurd trivial h
  | draw => exact absurd trivial h
  | _ =>
    cases d with
    | opened work front step back => cases step <;> cases back <;> rfl
    | _ => rfl

/-- What an answer makes of the desk, by the question that was due. -/
inductive Desk.Goes : Desk → (q : Ask) → q.Reply → Desk → Prop
  | quiet (d : Desk) {q : Ask} (h : ¬ Desk.Counts q) (r : q.Reply) : Goes d q r d
  | unbegun (tickets : List Ticket) (f : Fault) : Goes (.idle tickets) (.store .begin) (.error f) (.idle tickets)
  | begun (tickets : List Ticket) (work : Nat) :
      Goes (.idle tickets) (.store .begin) (.ok work) (.opened work [] .looking tickets)
  | failed {work : Nat} (front : List Passed) {step : Step} {back : List Ticket} {c : StoreCall}
      (due : Desk.Due work step back (.store c)) (within : c ≠ .commit work ∧ c ≠ .rollback work) (f : Fault) :
      Goes (.opened work front step back) (.store c) (.error f) (.opened work front (.failing step.held) back)
  | found (work : Nat) (front : List Passed) (t : Ticket) (back : List Ticket) :
      Goes (.opened work front .looking (t :: back)) (.store (.known work t.event.campaign)) (.ok true)
        (.opened work front .taking (t :: back))
  | missed (work : Nat) (front : List Passed) (t : Ticket) (back : List Ticket) :
      Goes (.opened work front .looking (t :: back)) (.store (.known work t.event.campaign)) (.ok false)
        (.opened work (front ++ [⟨t, none⟩]) .looking back)
  | took (work : Nat) (front : List Passed) (t : Ticket) (back : List Ticket) (taken : Bool) :
      Goes (.opened work front .taking (t :: back)) (.store (.decrement work t.event.campaign)) (.ok taken)
        (.opened work front (.writing (if taken then .success else .fail)) (t :: back))
  | drew (work : Nat) (front : List Passed) (r : Result) {t : Ticket} (back : List Ticket) (undrawn : t.sequence = none)
      (n : Int) :
      Goes (.opened work front (.writing r) (t :: back)) .draw n
        (.opened work front (.writing r) ({ t with sequence := some n } :: back))
  | wrote (work : Nat) (front : List Passed) (r : Result) {t : Ticket} {n : Int} (back : List Ticket)
      (numbered : t.sequence = some n) (id : Int) :
      Goes (.opened work front (.writing r) (t :: back)) (.store (.append work (t.entry r n))) (.ok id)
        (.opened work (front ++ [⟨t, some (t.entry r n)⟩]) .looking back)
  | committed (work : Nat) (front : List Passed) :
      Goes (.opened work front .looking []) (.store (.commit work)) (.ok ()) (.settled front)
  | uncommitted (work : Nat) (front : List Passed) (f : Fault) :
      Goes (.opened work front .looking []) (.store (.commit work)) (.error f) (Desk.reopened front [])
  | returned (work : Nat) (front : List Passed) (held : Option Result) (back : List Ticket)
      (r : (Ask.store (.rollback work)).Reply) :
      Goes (.opened work front (.failing held) back) (.store (.rollback work)) r (Desk.reopened front back)

theorem desk_goes {d : Desk} {q : Ask} (allowed : d.allows q) (r : q.Reply) : d.Goes q r (d.after q r) := by
  by_cases counts : Desk.Counts q
  · cases d with
    | settled front => exact absurd counts allowed
    | idle tickets =>
      obtain rfl := allowed counts
      match r with
      | .error f => exact .unbegun tickets f
      | .ok work => exact .begun tickets work
    | opened work front step back =>
      cases allowed counts with
      | look t back =>
        match r with
        | .error f => exact .failed front (.look t back) (by simp) f
        | .ok true => exact .found work front t back
        | .ok false => exact .missed work front t back
      | take t back =>
        match r with
        | .error f => exact .failed front (.take t back) (by simp) f
        | .ok taken => exact .took work front t back taken
      | draw result back undrawn => exact .drew work front result back undrawn r
      | write result back numbered =>
        match r with
        | .error f => exact .failed front (.write result back numbered) (by simp) f
        | .ok id => exact .wrote work front result back numbered id
      | commit =>
        match r with
        | .error f => exact .uncommitted work front f
        | .ok () => exact .committed work front
      | rollback held back => exact .returned work front held back r
  · rw [desk_after_quiet d counts]
    exact .quiet d counts r

theorem draw_undrawn {d : Desk} (allowed : d.allows .draw) :
    ∃ work front r t back, d = .opened work front (.writing r) (t :: back) ∧ t.sequence = none := by
  have goes := desk_goes allowed 0
  generalize d.after .draw 0 = d' at goes
  cases goes with
  | quiet d still => exact absurd trivial still
  | drew work front r back undrawn n => exact ⟨work, front, r, _, back, rfl, undrawn⟩

/-- A text in a dead letter, with what the letter says of it. -/
structure Posted where
  text : String
  reason : String
  persistence : Persistence
deriving DecidableEq, Repr

def Posted.of (m : Message) (r : Reason) : Posted := ⟨m.text, r.name, r.persistence⟩

def Ask.posted : Ask → List Posted
  | .publish _ e => e.carried.map fun text => ⟨text, e.reason, e.persistence⟩
  | _ => []

structure View where
  desk : Desk
  posted : List Posted

def Desk.watch : Watch View where
  allows v q := v.desk.allows q ∧ ¬ Desk.Foreign q
  after v q r := ⟨v.desk.after q r, v.posted ++ q.posted⟩

def Desk.roundWatch : Watch View := { Desk.watch with allows := fun v q => v.desk.allows q }

end CampaignSettlement.Settlement
