import CampaignSettlement.Proofs.Settlement.Accord
import CampaignSettlement.Proofs.Settlement.Rounds

/-!
Entries come from messages. The tickets at a desk are those of the readable messages of its batch, in the
order of the batch, and an entry is written for the ticket that it is passed with; what a transaction has
written is therefore for messages of the batch in their order.
-/
namespace CampaignSettlement.Settlement

open Ledger (Entry)
open Wire (Message Participation)

def Ticket.card (t : Ticket) : Message × Participation := (t.message, t.event)

def cardOf (m : Message) : Option (Message × Participation) := m.decode.toOption.map (m, ·)

structure Desk.Reads (ms : List Message) (d : Desk) : Prop where
  cards : d.tickets.map Ticket.card = ms.filterMap cardOf
  own : ∀ x ∈ d.front, ∀ e, x.entry = some e → ∃ r n, e = x.ticket.entry r n

theorem reads_start (ms : List Message) : (Desk.idle (ms.filterMap ticketOf)).Reads ms := by
  refine ⟨?_, fun x member => by cases member⟩
  rw [Desk.tickets, List.map_filterMap]
  refine List.filterMap_congr ?_
  intro m _
  cases h : m.decode <;> simp [ticketOf, cardOf, h, Except.toOption, Ticket.card]

theorem own_snoc {front : List Passed} {t : Ticket} {entry : Option Entry}
    (own : ∀ x ∈ front, ∀ e, x.entry = some e → ∃ r n, e = x.ticket.entry r n)
    (last : ∀ e, entry = some e → ∃ r n, e = t.entry r n) :
    ∀ x ∈ front ++ [⟨t, entry⟩], ∀ e, x.entry = some e → ∃ r n, e = x.ticket.entry r n := by
  intro x member
  rcases List.mem_append.mp member with earlier | here
  · exact own x earlier
  · obtain rfl := List.mem_singleton.mp here
    exact last

theorem reads_after {ms : List Message} {d : Desk} (h : d.Reads ms) {q : Ask} (allowed : d.allows q) (r : q.Reply) :
    (d.after q r).Reads ms := by
  obtain ⟨cards, own⟩ := h
  have reopened (front : List Passed) (back : List Ticket)
      (same : (front.map Passed.ticket ++ back).map Ticket.card = ms.filterMap cardOf) :
      (Desk.reopened front back).Reads ms := ⟨same, fun x member => by cases member⟩
  have goes := desk_goes allowed r
  generalize d.after q r = d' at goes ⊢
  cases goes with
  | quiet | unbegun | failed | found | took => exact ⟨cards, own⟩
  | begun => exact ⟨cards, fun x member => by cases member⟩
  | missed work front t back =>
    refine ⟨?_, own_snoc own fun e none => by cases none⟩
    simpa [Desk.tickets] using cards
  | drew work front result back undrawn n =>
    refine ⟨?_, own⟩
    simpa [Desk.tickets, Ticket.card] using cards
  | @wrote work front result t n back numbered id =>
    refine ⟨?_, own_snoc own fun e some => ⟨result, n, (Option.some.inj some).symm⟩⟩
    simpa [Desk.tickets] using cards
  | committed => exact ⟨by simpa [Desk.tickets] using cards, own⟩
  | uncommitted work front f => exact reopened front [] cards
  | returned work front held back r => exact reopened front back cards

variable {b : Backoff} {partition : Int} {batch : List Message} {asked : List Exchange} {rest : Program Bool}

theorem round_reads (course : (round b partition batch).Leads asked rest) : (deskAfter batch asked).Reads batch :=
  Program.track_preserves (w := Desk.roundWatch) (P := fun v => v.desk.Reads batch) (round_keeps b partition batch)
    course (reads_start batch) fun _ _ reads allowed r => reads_after reads allowed r

structure IsFor (m : Message) (e : Entry) : Prop where
  event : m.decode = .ok ⟨e.campaign, e.user⟩
  partition : e.partition = some m.receipt.partition
  offset : e.offset = some m.receipt.offset
  sentAt : e.sentAt = m.receipt.sentAt

theorem reads_ticket {ms : List Message} {d : Desk} (h : d.Reads ms) {t : Ticket} (member : t ∈ d.tickets) :
    t.message ∈ ms ∧ t.message.decode = .ok t.event := by
  have at_card : t.card ∈ ms.filterMap cardOf := h.cards ▸ List.mem_map_of_mem member
  obtain ⟨m, in_batch, same⟩ := List.mem_filterMap.mp at_card
  cases decoded : m.decode with
  | error detail => simp [cardOf, decoded, Except.toOption] at same
  | ok e =>
    simp only [cardOf, decoded, Except.toOption, Option.map_some, Option.some.injEq, Ticket.card, Prod.mk.injEq] at same
    obtain ⟨rfl, rfl⟩ := same
    exact ⟨in_batch, decoded⟩

theorem front_tickets (d : Desk) : d.front.map Passed.ticket <+: d.tickets := by
  cases d with
  | idle tickets => exact List.nil_prefix
  | opened work front step back => exact List.prefix_append _ _
  | settled front => exact List.prefix_rfl

theorem reads_decided {ms : List Message} {d : Desk} (h : d.Reads ms) {x : Ledger.Decision} (member : x ∈ d.decided) :
    ∃ t ∈ d.tickets, t.event.campaign = x.1 := by
  cases d with
  | idle | settled => cases member
  | opened work front step back =>
    rcases List.mem_append.mp member with written | pending
    · obtain ⟨e, at_entry, rfl⟩ := List.mem_map.mp written
      obtain ⟨p, passed, at_passed⟩ := List.mem_filterMap.mp at_entry
      obtain ⟨r, n, rfl⟩ := h.own p passed e at_passed
      exact ⟨p.ticket, List.mem_append_left _ (List.mem_map_of_mem passed), rfl⟩
    · cases back with
      | nil => cases pending
      | cons t back =>
        obtain ⟨r, -, rfl⟩ := List.mem_map.mp pending
        exact ⟨t, by simp [Desk.tickets], rfl⟩

theorem cards_sublist (ms : List Message) : ((ms.filterMap cardOf).map Prod.fst).Sublist ms := by
  induction ms with
  | nil => exact .slnil
  | cons m ms ih =>
    cases decoded : m.decode with
    | error detail => simpa [cardOf, decoded, Except.toOption] using ih.cons m
    | ok e => simpa [cardOf, decoded, Except.toOption] using ih.cons_cons m

def writtenFor (front : List Passed) : List Message :=
  (front.filter fun x => x.entry.isSome).map fun x => x.ticket.message

theorem writtenFor_isFor {front : List Passed}
    (own : ∀ x ∈ front, ∀ e, x.entry = some e →
      x.ticket.message.decode = .ok x.ticket.event ∧ ∃ r n, e = x.ticket.entry r n) :
    List.Forall₂ IsFor (writtenFor front) (front.filterMap Passed.entry) := by
  induction front with
  | nil => exact .nil
  | cons x front ih =>
    have rest := ih fun y member => own y (List.mem_cons_of_mem _ member)
    cases written : x.entry with
    | none => simpa [writtenFor, written] using rest
    | some e =>
      obtain ⟨decoded, r, n, rfl⟩ := own x List.mem_cons_self e written
      have here : IsFor x.ticket.message (x.ticket.entry r n) := ⟨decoded, rfl, rfl, rfl⟩
      have both := List.Forall₂.cons here rest
      simpa only [writtenFor, List.filter_cons, List.filterMap_cons, written, Option.isSome_some, if_true,
        List.map_cons] using both

theorem entries_isFor {ms : List Message} {d : Desk} (h : d.Reads ms) :
    ∃ part, part.Sublist ms ∧ List.Forall₂ IsFor part (d.front.filterMap Passed.entry) := by
  refine ⟨writtenFor d.front, ?_, writtenFor_isFor ?_⟩
  · have passed : (writtenFor d.front).Sublist ((d.front.map Passed.ticket).map Ticket.message) := by
      rw [List.map_map]
      exact List.filter_sublist.map _
    have all : (d.tickets.map Ticket.message).Sublist ms := by
      have cards := cards_sublist ms
      rwa [← h.cards, List.map_map] at cards
    exact passed.trans (((front_tickets d).sublist.map _).trans all)
  · intro x member e written
    have ticket := (front_tickets d).mem (List.mem_map_of_mem member)
    exact ⟨(reads_ticket h ticket).2, h.own x member e written⟩

end CampaignSettlement.Settlement
