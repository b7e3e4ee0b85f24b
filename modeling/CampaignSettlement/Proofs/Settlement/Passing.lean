import CampaignSettlement.Proofs.Settlement.Accord
import CampaignSettlement.Proofs.Settlement.Failures
import CampaignSettlement.Proofs.Settlement.Upkeep

/-!
Which messages get an entry. An entry bears the sequence of its ticket. While the campaigns that are known stay the
same, a message gets an entry when its campaign is known, and no other does; and only such messages draw a sequence.
-/
namespace CampaignSettlement.Settlement

open Ledger (Entry Holdings)
open Wire (Message)

def Truthful (known : Int → Prop) : (q : Ask) → q.Reply → Prop
  | .store (.known _ campaign), .ok found => found = true ↔ known campaign
  | _, _ => True

/-- The campaign of a message that has been looked up and is not yet written down. -/
def Desk.Looked (known : Int → Prop) : Desk → Prop
  | .opened _ _ .taking (t :: _) | .opened _ _ (.writing _) (t :: _) => known t.event.campaign
  | _ => True

structure Desk.Agrees (known : Int → Prop) (d : Desk) : Prop where
  looked : d.Looked known
  numbered : ∀ t ∈ d.tickets, t.sequence.isSome → known t.event.campaign
  passed : ∀ x ∈ d.front, x.entry.isSome ↔ known x.ticket.event.campaign

def Desk.Signed (d : Desk) : Prop := ∀ x ∈ d.front, ∀ e ∈ x.entry, x.ticket.sequence = some e.sequence

theorem signed_after {d : Desk} (h : d.Signed) {q : Ask} (allowed : d.allows q) (r : q.Reply) :
    (d.after q r).Signed := by
  have passed (front : List Passed) (own : ∀ x ∈ front, ∀ e ∈ x.entry, x.ticket.sequence = some e.sequence) (t : Ticket)
      (entry : Option Entry) (here : ∀ e ∈ entry, t.sequence = some e.sequence) :
      ∀ x ∈ front ++ [⟨t, entry⟩], ∀ e ∈ x.entry, x.ticket.sequence = some e.sequence := by
    intro x member
    rcases List.mem_append.mp member with earlier | last
    · exact own x earlier
    · obtain rfl := List.mem_singleton.mp last
      exact here
  have goes := desk_goes allowed r
  generalize d.after q r = d' at goes ⊢
  cases goes with
  | quiet | unbegun | failed | found | took | drew | committed => exact h
  | begun | uncommitted | returned => exact List.forall_mem_nil _
  | missed work front t back => exact passed front h t none nofun
  | @wrote work front result t n back numbered id =>
    refine passed front h t _ ?_
    rintro e ⟨⟩
    exact numbered

variable {known : Int → Prop}

theorem agrees_start (ms : List Message) : (Desk.idle (ms.filterMap ticketOf)).Agrees known := by
  refine ⟨trivial, ?_, List.forall_mem_nil _⟩
  intro t member numbered
  obtain ⟨m, -, same⟩ := List.mem_filterMap.mp member
  obtain ⟨e, -, rfl⟩ := Option.map_eq_some_iff.mp same
  cases numbered

theorem looked_failing (known : Int → Prop) (work : Nat) (front : List Passed) (step : Step) (back : List Ticket) :
    (Desk.opened work front (.failing step.held) back).Looked known := by
  cases back <;> trivial

theorem agrees_snoc {work : Nat} {front : List Passed} {step : Step} {t : Ticket} {entry : Option Entry}
    {back : List Ticket} (h : (Desk.opened work front step (t :: back)).Agrees known)
    (passed : entry.isSome ↔ known t.event.campaign) :
    (Desk.opened work (front ++ [⟨t, entry⟩]) .looking back).Agrees known := by
  refine ⟨by cases back <;> trivial, ?_, ?_⟩
  · simpa [Desk.tickets] using h.numbered
  · intro x member
    rcases List.mem_append.mp member with earlier | last
    · exact h.passed x earlier
    · obtain rfl := List.mem_singleton.mp last
      exact passed

theorem agrees_reopened {work : Nat} {front : List Passed} {step : Step} {back : List Ticket}
    (h : (Desk.opened work front step back).Agrees known) : (Desk.reopened front back).Agrees known :=
  ⟨trivial, h.numbered, List.forall_mem_nil _⟩

theorem agrees_after {d : Desk} (h : d.Agrees known) {q : Ask} {r : q.Reply} (allowed : d.allows q)
    (truthful : Truthful known q r) : (d.after q r).Agrees known := by
  have goes := desk_goes allowed r
  generalize d.after q r = d' at goes ⊢
  cases goes with
  | quiet | unbegun => exact h
  | begun tickets => exact ⟨by cases tickets <;> trivial, h.numbered, List.forall_mem_nil _⟩
  | failed front due within f => exact ⟨looked_failing known _ front _ _, h.numbered, h.passed⟩
  | found => exact ⟨truthful.mp rfl, h.numbered, h.passed⟩
  | missed => exact agrees_snoc h (by simpa using mt truthful.mpr)
  | took => exact ⟨h.looked, h.numbered, h.passed⟩
  | @drew work front result t back undrawn n =>
    have here : known t.event.campaign := h.looked
    refine ⟨here, ?_, h.passed⟩
    intro u member numbered
    have before (member : u ∈ front.map Passed.ticket ++ t :: back) := h.numbered u member numbered
    simp only [Desk.tickets, List.mem_append, List.mem_cons] at member before
    rcases member with earlier | rfl | later
    · exact before (Or.inl earlier)
    · exact here
    · exact before (Or.inr (Or.inr later))
  | @wrote work front result t n back numbered id =>
    have here : known t.event.campaign := h.looked
    exact agrees_snoc h (by simpa using here)
  | committed => exact ⟨trivial, by simpa [Desk.tickets] using h.numbered, h.passed⟩
  | uncommitted | returned => exact agrees_reopened h

/-- Whether a campaign is known at the station is `known`, from the beginning to the end. -/
def Tells (known : Int → Prop) (s : MemoryStation) : Prop :=
  ∀ id, (s.holdings.campaigns.get? id).isSome ↔ known id

theorem answered_known {k k' : Holdings} {q : Ask} {r : q.Reply} (answered : Answered k q r k') (id : Int) :
    (k'.campaigns.get? id).isSome = (k.campaigns.get? id).isSome := by
  cases answered with
  | other => rfl
  | store effect =>
    cases effect with
    | failed | begun | known | refused | wrote | committed => rfl
    | took opened found stocked =>
      simp only [Holdings.took, Ledger.Table.get?_put]
      split
      · next same => rw [same, found, Option.isSome_some, Option.isSome_some]
      · rfl
    | undone | returned => rw [Holdings.returned, Holdings.get?_returned, Option.isSome_map]

theorem answered_truthful {s : MemoryStation} (tells : Tells known s) {q : Ask} {r : q.Reply} {k' : Holdings}
    (answered : Answered s.holdings q r k') : Truthful known q r := by
  cases answered with
  | other other r =>
    cases q with
    | store c => exact absurd rfl (other c)
    | _ => trivial
  | @store c r k' effect =>
    cases effect with
    | failed f absent => cases c <;> trivial
    | known work campaign => exact tells campaign
    | _ => trivial

def Marked (known : Int → Prop) : Knowledge := Each (Tells known) fun r => r.desk.Agrees known

def StillTells (known : Int → Prop) : Shift := fun s s' => Tells known s → Tells known s'

theorem marked_upkeep (b : Backoff) (Q : Int → Message → Prop) (known : Int → Prop) :
    Upkeep b Q (StillTells known) (Marked known) := by
  refine Upkeep.each (fun tells pool signals => tells) agrees_start ?_ fun tells still => still tells
  intro s r q tells agrees held allowed
  have answered := answer_answered s q
  refine ⟨fun id => by rw [answered_known answered]; exact tells id, ?_⟩
  rw [round_desk_ask]
  exact agrees_after agrees allowed (answered_truthful tells answered)

def AllSigned : Knowledge := Each (fun _ => True) fun r => r.desk.Signed

theorem signed_upkeep (b : Backoff) (Q : Int → Message → Prop) : Upkeep b Q (fun _ _ => True) AllSigned := by
  refine Upkeep.each (fun _ _ _ => trivial) (fun batch => List.forall_mem_nil _) ?_ fun _ _ => trivial
  intro s r q _ signed held allowed
  refine ⟨trivial, ?_⟩
  rw [round_desk_ask]
  exact signed_after signed allowed _

end CampaignSettlement.Settlement
