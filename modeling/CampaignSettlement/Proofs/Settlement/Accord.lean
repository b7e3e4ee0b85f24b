import Mathlib.Logic.Function.Basic
import CampaignSettlement.Proofs.Ledger.Stock
import CampaignSettlement.Proofs.Settlement.Desk
import CampaignSettlement.Settlement.Station

/-!
Desks over one ledger in memory. Each desk works in a transaction of its own, and the ledger has for it
exactly what was decided and written at that desk. What is asked at one desk leaves the transactions of
all others as they are.
-/
namespace CampaignSettlement.Settlement

open Calendar (Instant)
open Ledger (Arming CallKind Campaign Decision Entry Fault Faulty Holdings Injection Launch MemoryLedger Result
  Settler StoreCall Table Work winners)
open Ledger.Holdings (Effect)

namespace Desk

def pending : Desk → List Decision
  | opened _ _ step (t :: _) => step.held.toList.map fun r => (t.event.campaign, r)
  | _ => []

def decided (d : Desk) : List Decision := d.written.map Entry.decision ++ d.pending

theorem decided_writing (work : Nat) (front : List Passed) (r : Result) (t : Ticket) (back : List Ticket) :
    (opened work front (.writing r) (t :: back)).decided =
      (opened work front .taking (t :: back)).decided ++ [(t.event.campaign, r)] := by
  simp [decided, written, pending, Step.held]

theorem decided_written (work : Nat) (front : List Passed) (r : Result) (t : Ticket) (n : Int) (back : List Ticket) :
    (opened work (front ++ [⟨t, some (t.entry r n)⟩]) .looking back).decided =
      (opened work front (.writing r) (t :: back)).decided := by
  have idle : (opened work (front ++ [⟨t, some (t.entry r n)⟩]) .looking back).pending = [] := by cases back <;> rfl
  rw [decided, idle, written_snoc]
  simp [decided, written, pending, Step.held, Entry.decision, Ticket.entry]

theorem decided_closed {d : Desk} (closed : d.work? = none) : d.decided = [] := by
  cases d with
  | opened => cases closed
  | _ => rfl

def HeldIn (d : Desk) (k : Holdings) : Prop :=
  ∀ work, d.work? = some work → ∃ w, k.works.get? work = some w ∧ w.taken = winners d.decided ∧
    w.written.map Prod.snd = d.written

end Desk

/-- What a question that was due, with its answer, does to the ledger and to its desk. -/
inductive Act (k : Holdings) : Desk → Holdings → Desk → Prop
  | still {d d' : Desk} (work : d'.work? = d.work?) (pending : d'.pending = d.pending)
      (written : d'.written = d.written) (committed : d'.committed = d.committed) : Act k d k d'
  | began (tickets : List Ticket) : Act k (.idle tickets) k.begun (.opened (k.lastWork + 1) [] .looking tickets)
  | took {work : Nat} {w : Work} {c : Campaign} (front : List Passed) (t : Ticket) (back : List Ticket)
      (opened : k.works.get? work = some w) (found : k.campaigns.get? t.event.campaign = some c)
      (stocked : 0 < c.currentStock) :
      Act k (.opened work front .taking (t :: back)) (k.took work w t.event.campaign c)
        (.opened work front (.writing .success) (t :: back))
  | refused (work : Nat) (front : List Passed) (t : Ticket) (back : List Ticket)
      (none_left : ∀ c ∈ k.campaigns.get? t.event.campaign, c.currentStock ≤ 0) :
      Act k (.opened work front .taking (t :: back)) k (.opened work front (.writing .fail) (t :: back))
  | wrote {work : Nat} {w : Work} (front : List Passed) (r : Result) (t : Ticket) (n id : Int) (back : List Ticket)
      (opened : k.works.get? work = some w) :
      Act k (.opened work front (.writing r) (t :: back)) (k.wrote work w id (t.entry r n))
        (.opened work (front ++ [⟨t, some (t.entry r n)⟩]) .looking back)
  | committed {work : Nat} {w : Work} (front : List Passed) (created : Instant)
      (opened : k.works.get? work = some w) :
      Act k (.opened work front .looking []) (k.committed work w created) (.settled front)
  | returned {work : Nat} {w : Work} (front : List Passed) (step : Step) (back : List Ticket)
      (opened : k.works.get? work = some w) :
      Act k (.opened work front step back) (k.returned work w) (Desk.reopened front back)

theorem act_failing {k : Holdings} (work : Nat) (front : List Passed) (step : Step) (back : List Ticket) :
    Act k (.opened work front step back) k (.opened work front (.failing step.held) back) := by
  refine .still rfl ?_ rfl rfl
  cases back <;> rfl

theorem act_of_due {k k' : Holdings} {d : Desk} {c : StoreCall} {r : c.Reply} (held : d.HeldIn k)
    (allowed : d.allows (.store c)) (effect : Effect k c r k') : Act k d k' (d.after (.store c) r) := by
  cases d with
  | settled front => exact absurd trivial allowed
  | idle tickets =>
    obtain rfl : c = .begin := by simpa using allowed trivial
    cases effect with
    | failed f absent => exact .still rfl rfl rfl rfl
    | begun => exact .began tickets
  | opened work front step back =>
    obtain ⟨w, opened, -⟩ := held work rfl
    have here : k.works.get? work ≠ none := by rw [opened]; simp
    cases allowed trivial with
    | look t back =>
      cases effect with
      | failed f absent => exact act_failing work front .looking (t :: back)
      | known =>
        cases known : (k.campaigns.get? t.event.campaign).isSome with
        | true => exact .still rfl rfl rfl rfl
        | false =>
          refine .still rfl ?_ ?_ rfl
          · cases back <;> rfl
          · exact (Desk.written_snoc work front t none .looking back).trans (List.append_nil _)
    | take t back =>
      cases effect with
      | failed f absent => exact act_failing work front .taking (t :: back)
      | refused _ none_left => exact .refused work front t back none_left
      | took opened found stocked => exact .took front t back opened found stocked
    | write r back h =>
      cases effect with
      | failed f absent => exact act_failing work front (.writing r) (_ :: back)
      | wrote id e opened => exact .wrote front r _ _ id back opened
    | commit =>
      cases effect with
      | failed f absent => exact absurd (absent work (Or.inl rfl)) here
      | committed created opened => exact .committed front created opened
      | undone f opened => exact .returned front .looking [] opened
    | rollback held back =>
      cases effect with
      | failed f absent => exact absurd (absent work (Or.inr rfl)) here
      | returned r opened => exact .returned front (.failing _) back opened

theorem act_of_quiet {k : Holdings} {d : Desk} {q : Ask} (allowed : d.allows q) (other : ∀ c, q ≠ .store c)
    (r : q.Reply) : Act k d k (d.after q r) := by
  by_cases counts : Desk.Counts q
  · cases q with
    | store c => exact absurd rfl (other c)
    | draw =>
      obtain ⟨work, front, result, t, back, rfl, -⟩ := draw_undrawn allowed
      exact .still rfl rfl rfl rfl
    | _ => exact absurd counts id
  · rw [desk_after_quiet d counts]
    exact .still rfl rfl rfl rfl

theorem act_heldIn {k k' : Holdings} {d d' : Desk} (held : d.HeldIn k) (act : Act k d k' d') : d'.HeldIn k' := by
  cases act with
  | still work pending written committed =>
    intro n member
    rw [Desk.decided, written, pending]
    exact held n (by rwa [work] at member)
  | began tickets =>
    intro n member
    cases member
    refine ⟨_, Table.get?_put_self _ _ _, ?_, rfl⟩
    cases tickets <;> rfl
  | @took work w c front t back opened found stocked =>
    intro n member
    cases member
    obtain ⟨v, same, taken, written⟩ := held work rfl
    obtain rfl := Option.some.inj (opened.symm.trans same)
    refine ⟨_, Table.get?_put_self _ _ _, ?_, written⟩
    rw [Desk.decided_writing, taken]
    simp [winners]
  | refused work front t back none_left =>
    intro n member
    cases member
    obtain ⟨w, opened, taken, written⟩ := held work rfl
    refine ⟨w, opened, ?_, written⟩
    rw [Desk.decided_writing, taken]
    simp [winners]
  | @wrote work w front r t n id back opened =>
    intro n member
    cases member
    obtain ⟨v, same, taken, written⟩ := held work rfl
    obtain rfl := Option.some.inj (opened.symm.trans same)
    refine ⟨_, Table.get?_put_self _ _ _, ?_, ?_⟩
    · rw [Desk.decided_written]
      exact taken
    · rw [Desk.written_snoc, List.map_append, written]
      rfl
  | committed | returned =>
    intro n member
    cases member

theorem act_frame {k k' : Holdings} {d d' : Desk} (orderly : k.Orderly) (act : Act k d k' d') {work : Nat} {w : Work}
    (other : d.work? ≠ some work) (h : k.works.get? work = some w) : k'.works.get? work = some w := by
  have apart {mine : Nat} {front : List Passed} {step : Step} {back : List Ticket}
      (same : d = .opened mine front step back) : work ≠ mine := by
    rintro rfl
    exact other (by rw [same]; rfl)
  cases act with
  | still | refused => exact h
  | began tickets =>
    have later : work ≠ k.lastWork + 1 := by
      rintro rfl
      rw [orderly.fresh] at h
      cases h
    simpa [Holdings.begun, Table.get?_put, later] using h
  | took => simpa [Holdings.took, Table.get?_put, apart rfl] using h
  | wrote => simpa [Holdings.wrote, Table.get?_put, apart rfl] using h
  | committed => simpa [Holdings.committed, Table.get?_erase, apart rfl] using h
  | returned => simpa [Holdings.returned, Table.get?_erase, apart rfl] using h

theorem act_work {k k' : Holdings} {d d' : Desk} (act : Act k d k' d') :
    ∀ work, d'.work? = some work → d.work? = some work ∨ k.lastWork < work := by
  intro work member
  cases act with
  | still same => exact Or.inl (by rwa [same] at member)
  | began tickets =>
    obtain rfl : k.lastWork + 1 = work := Option.some.inj member
    exact Or.inr (Nat.lt_succ_self _)
  | took | refused | wrote => exact Or.inl member
  | committed => cases member
  | returned => cases member

inductive Answered (k : Holdings) : (q : Ask) → q.Reply → Holdings → Prop
  | store {c : StoreCall} {r : c.Reply} {k' : Holdings} (effect : Effect k c r k') : Answered k (.store c) r k'
  | other {q : Ask} (h : ∀ c, q ≠ .store c) (r : q.Reply) : Answered k q r k

theorem act_of_answered {k k' : Holdings} {d : Desk} {q : Ask} {r : q.Reply} (held : d.HeldIn k) (allowed : d.allows q)
    (answered : Answered k q r k') : Act k d k' (d.after q r) := by
  cases answered with
  | store effect => exact act_of_due held allowed effect
  | other other r => exact act_of_quiet allowed other r

def Station.holdings (s : Station (Faulty MemoryLedger)) : Holdings := s.store.holdings

/-- The same station over a ledger to which campaigns have been added and nothing else has been done. -/
def Station.opening (s : Station (Faulty MemoryLedger)) (launches : List Launch)
    (injections : List (Injection CallKind Fault)) : Station (Faulty MemoryLedger) :=
  { s with store := ⟨.opening launches, injections⟩ }

def Drawn (last : Int) : (q : Ask) → q.Reply → Int → Prop
  | .draw, n, last' => n = last + 1 ∧ last' = last + 1
  | _, _, last' => last' = last

section Answers

variable {σ : Type} (settler : Instant → Settler σ) (s : Station σ)

theorem answer_store {q : Ask} (other : ∀ c, q ≠ .store c) : (s.answer settler q).1.store = s.store := by
  cases q with
  | store c => exact absurd rfl (other c)
  | ack partition offset =>
    simp only [Station.answer, Station.ack]
    split <;> rfl
  | _ => rfl

theorem answer_now (q : Ask) : (s.answer settler q).1.now = s.now := by
  cases q with
  | ack partition offset =>
    simp only [Station.answer, Station.ack]
    split <;> rfl
  | _ => rfl

variable {settler} in
theorem answer_drawn (q : Ask) :
    Drawn s.sequence.last q (s.answer settler q).2 (s.answer settler q).1.sequence.last := by
  cases q with
  | draw => exact ⟨rfl, rfl⟩
  | ack partition offset =>
    simp only [Station.answer, Station.ack, Drawn]
    split <;> rfl
  | _ => rfl

end Answers

theorem answer_answered (s : Station (Faulty MemoryLedger)) (q : Ask) :
    Answered s.holdings q (s.answer Faulty.settleMemory q).2 (s.answer Faulty.settleMemory q).1.holdings := by
  cases q with
  | store c => exact .store (Faulty.settleMemory_effect s.now s.store c)
  | _ =>
    rw [Station.holdings, Station.holdings, answer_store _ s (by simp)]
    exact .other (by simp) _

theorem change_holdings (s : Station (Faulty MemoryLedger)) (e : Station.Change Arming) :
    (s.change Faulty.arm e).holdings = s.holdings := by
  cases e with
  | store a => exact Faulty.arm_holdings a s.store
  | _ => rfl

variable {ι : Type} {desk : ι → Desk} {k k' : Holdings}

/-- The desks and the ledger agree. -/
structure Accord (desk : ι → Desk) (k : Holdings) : Prop where
  orderly : k.Orderly
  held : ∀ i, (desk i).HeldIn k
  apart : ∀ i j work, (desk i).work? = some work → (desk j).work? = some work → i = j

theorem Accord.begun_before (h : Accord desk k) (i : ι) : ∀ work, (desk i).work? = some work → work ≤ k.lastWork := by
  intro work member
  obtain ⟨w, opened, -⟩ := h.held i work member
  exact h.orderly.begun _ (Table.mem_of_get? opened)

theorem Accord.act (h : Accord desk k) {i : ι} {q : Ask} {r : q.Reply} (allowed : (desk i).allows q)
    (answered : Answered k q r k') : Act k (desk i) k' ((desk i).after q r) :=
  act_of_answered (h.held i) allowed answered

theorem Accord.step [DecidableEq ι] (h : Accord desk k) {i : ι} {q : Ask} {r : q.Reply}
    (allowed : (desk i).allows q) (answered : Answered k q r k') :
    Accord (Function.update desk i ((desk i).after q r)) k' := by
  have act := h.act allowed answered
  have orderly : k'.Orderly := by
    cases answered with
    | store effect => exact Ledger.Holdings.orderly_effect h.orderly effect
    | other => exact h.orderly
  -- a transaction that was just begun has a number that no other desk can have
  have apart : ∀ j ≠ i, ∀ work, ((desk i).after q r).work? = some work → (desk j).work? ≠ some work := by
    intro j other work mine theirs
    rcases act_work act work mine with before | later
    · exact other (h.apart j i work theirs before)
    · exact absurd (h.begun_before j work theirs) (Nat.not_le.mpr later)
  refine ⟨orderly, ?_, ?_⟩
  · intro j
    by_cases own : j = i
    · subst own
      rw [Function.update_self]
      exact act_heldIn (h.held j) act
    · rw [Function.update_of_ne own]
      intro work member
      obtain ⟨w, opened, rest⟩ := h.held j work member
      exact ⟨w, act_frame h.orderly act (fun mine => own (h.apart j i work member mine)) opened, rest⟩
  · intro j l work first second
    by_cases own : j = i <;> by_cases same : l = i
    · rw [own, same]
    · subst own
      rw [Function.update_self] at first
      rw [Function.update_of_ne same] at second
      exact absurd second (apart l same work first)
    · subst same
      rw [Function.update_of_ne own] at first
      rw [Function.update_self] at second
      exact absurd first (apart j own work second)
    · rw [Function.update_of_ne own] at first
      rw [Function.update_of_ne same] at second
      exact h.apart j l work first second

theorem Accord.rest [DecidableEq ι] (h : Accord desk k) (i : ι) {d : Desk} (closed : d.work? = none) :
    Accord (Function.update desk i d) k := by
  have desk_of : ∀ j work, (Function.update desk i d j).work? = some work → (desk j).work? = some work ∧
      Function.update desk i d j = desk j := by
    intro j work opened
    by_cases own : j = i
    · subst own
      rw [Function.update_self, closed] at opened
      cases opened
    · rw [Function.update_of_ne own] at opened ⊢
      exact ⟨opened, rfl⟩
  refine ⟨h.orderly, ?_, ?_⟩
  · intro j work opened
    obtain ⟨before, same⟩ := desk_of j work opened
    rw [same]
    exact h.held j work before
  · intro j l work first second
    exact h.apart j l work (desk_of j work first).1 (desk_of l work second).1

/-- A transaction that may be committed has an entry for each unit. -/
theorem Accord.covered (h : Accord desk k) {i : ι} {work : Nat} (allowed : (desk i).allows (.store (.commit work))) :
    ∀ w ∈ k.works.get? work, w.Covered := by
  intro w opened
  cases at_desk : desk i with
  | settled front =>
    rw [at_desk] at allowed
    exact absurd trivial allowed
  | idle tickets =>
    rw [at_desk] at allowed
    cases allowed trivial
  | opened mine front step back =>
    have held := h.held i
    rw [at_desk] at allowed held
    cases allowed trivial with
    | commit =>
      obtain ⟨v, same, taken, written⟩ := held work rfl
      obtain rfl := Option.some.inj (same.symm.trans opened)
      rw [Work.Covered, taken, Desk.decided, ← written]
      simp [Desk.pending, Function.comp_def]

theorem Accord.balanced (h : Accord desk k) {i : ι} {q : Ask} {r : q.Reply} (allowed : (desk i).allows q)
    (answered : Answered k q r k') {campaign stock : Int} (balanced : k.Balanced campaign stock) :
    k'.Balanced campaign stock := by
  cases answered with
  | other => exact balanced
  | store effect =>
    refine Ledger.Holdings.balanced_effect balanced h.orderly effect ?_
    intro work same
    subst same
    exact h.covered allowed

end CampaignSettlement.Settlement
