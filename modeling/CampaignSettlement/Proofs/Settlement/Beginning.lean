import Mathlib.Data.List.Induction
import Mathlib.Logic.Function.Basic
import CampaignSettlement.Proofs.Lists
import CampaignSettlement.Proofs.Settlement.Chronicle
import CampaignSettlement.Proofs.Settlement.Committing
import CampaignSettlement.Proofs.Settlement.Drawing

/-!
What the global sequence marks. A message is looked up, a unit is asked for, and only then is its sequence drawn, in
this attempt or in a later one; others may draw in between. So sequences tell the order of the draws. The message that
was looked up first is sure of the lesser sequence only if it had drawn before the other was looked up.
-/
namespace CampaignSettlement.Settlement

open Calendar (Instant)
open Ledger (Arming CallKind Fault Faulty Injection MemoryLedger Result Settler)
open Wire (Message)

/-- What is marked down of a batch, by the place of a message among those that can be read. -/
inductive Mark
  | looked (place : Nat)
  | drew (place : Nat) (n : Int)
deriving DecidableEq, Repr

def Mark.of (v : Draws) : Exchange → Option Mark
  | ⟨.store (.known ..), _⟩ => some (.looked v.place)
  | ⟨.draw, n⟩ => some (.drew (v.place - 1) n)
  | _ => none

structure Diary where
  draws : Draws := {}
  marks : List Mark := []

namespace Diary

def after (v : Diary) (q : Ask) (r : q.Reply) : Diary :=
  ⟨v.draws.after q r, v.marks ++ (Mark.of v.draws ⟨q, r⟩).toList⟩

def watch : Watch Diary := ⟨fun _ _ => True, after⟩

/-- The message that is at hand has been looked up. -/
def Looked : Desk → List Mark → Prop
  | .opened _ front .taking _, marks | .opened _ front (.writing _) _, marks => .looked front.length ∈ marks
  | _, _ => True

/-- What is drawn for a message is drawn once, after it was looked up. -/
def Ordered (marks : List Mark) : Prop :=
  ∀ before p n later, marks = before ++ .drew p n :: later → .looked p ∈ before ∧ ∀ m, .drew p m ∉ before

structure OfDesk (d : Desk) (v : Diary) : Prop where
  place : Draws.At d v.draws.place
  looked : Looked d v.marks
  ordered : Ordered v.marks
  numbered : ∀ p n, .drew p n ∈ v.marks ↔ ∃ t, d.tickets[p]? = some t ∧ t.sequence = some n

theorem ordered_snoc {marks : List Mark} (ordered : Ordered marks) {x : Mark}
    (last : ∀ p n, x = .drew p n → .looked p ∈ marks ∧ ∀ m, .drew p m ∉ marks) : Ordered (marks ++ [x]) := by
  intro before p n later split
  rcases snoc_split split with ⟨rfl, rfl, rfl⟩ | ⟨early, rfl, rfl⟩
  · exact last p n rfl
  · exact ordered before p n early rfl

theorem looked_append {d : Desk} {marks : List Mark} (looked : Looked d marks) (more : List Mark) :
    Looked d (marks ++ more) := by
  cases d with
  | opened work front step back =>
    cases step with
    | taking | writing => exact List.mem_append_left _ looked
    | looking | failing => trivial
  | idle | settled => trivial

theorem looked_after {d : Desk} {v : Diary} {q : Ask} (h : OfDesk d v) (allowed : d.allows q) (r : q.Reply) :
    Looked (d.after q r) (v.after q r).marks := by
  have goes := desk_goes allowed r
  generalize d.after q r = d' at goes ⊢
  cases goes with
  | quiet => exact looked_append h.looked _
  | found work front t back =>
    have here : v.draws.place = front.length := h.place
    exact List.mem_append_right _ (here ▸ List.mem_singleton_self _)
  | took | drew => exact List.mem_append_left _ h.looked
  | unbegun | begun | failed | missed | wrote | committed | uncommitted | returned => trivial

theorem mark_other {v : Draws} {q : Ask} (other : q ≠ .draw) (r : q.Reply) (p : Nat) (n : Int) :
    .drew p n ∉ (Mark.of v ⟨q, r⟩).toList := by
  cases q with
  | draw => exact absurd rfl other
  | store c => cases c <;> simp [Mark.of]
  | _ => simp [Mark.of]

theorem ofDesk_draw {d : Desk} {v : Diary} (h : OfDesk d v) (allowed : d.allows .draw) (n : Int) :
    OfDesk (d.after .draw n) (v.after .draw n) := by
  have place := Draws.place_after h.place allowed n
  have looked := looked_after h allowed n
  obtain ⟨work, front, r, t, back, rfl, undrawn⟩ := draw_undrawn allowed
  have here : v.draws.place = front.length + 1 := h.place
  have marks : (v.after .draw n).marks = v.marks ++ [.drew front.length n] := by
    simp [after, Mark.of, here]
  have at_front : (Desk.opened work front (.writing r) (t :: back)).tickets[front.length]? = some t := by
    simp [Desk.tickets]
  have tickets : ((Desk.opened work front (.writing r) (t :: back)).after .draw n).tickets =
      (Desk.opened work front (.writing r) (t :: back)).tickets.set front.length { t with sequence := some n } := by
    simp [Desk.after, Desk.go, Desk.tickets]
  -- if one had been drawn for this message before, it would be on its ticket
  have first : ∀ m, .drew front.length m ∉ v.marks := by
    intro m earlier
    obtain ⟨u, at_place, drawn⟩ := (h.numbered front.length m).mp earlier
    obtain rfl := Option.some.inj (at_front.symm.trans at_place)
    rw [undrawn] at drawn
    cases drawn
  refine ⟨place, looked, ?_, ?_⟩
  · rw [marks]
    refine ordered_snoc h.ordered ?_
    intro p m same
    cases same
    exact ⟨h.looked, first⟩
  · intro p m
    rw [marks, tickets, List.mem_append, List.mem_singleton, Mark.drew.injEq]
    by_cases own : p = front.length
    · subst own
      rw [List.getElem?_set_self (List.getElem?_eq_some_iff.mp at_front).1]
      simp [first, eq_comm]
    · rw [List.getElem?_set_ne (Ne.symm own), ← h.numbered p m]
      simp [own]

theorem ofDesk_after {d : Desk} {v : Diary} {q : Ask} (h : OfDesk d v) (allowed : d.allows q) (r : q.Reply) :
    OfDesk (d.after q r) (v.after q r) := by
  by_cases draws : q = .draw
  · subst draws
    exact ofDesk_draw h allowed r
  · refine ⟨Draws.place_after h.place allowed r, looked_after h allowed r, ?_, ?_⟩
    · unfold after
      cases marked : Mark.of v.draws ⟨q, r⟩ with
      | none => simpa using h.ordered
      | some x =>
        refine ordered_snoc h.ordered ?_
        rintro p n rfl
        exact absurd (by simp [marked]) (mark_other (v := v.draws) draws r p n)
    · intro p n
      rw [tickets_after allowed draws, ← h.numbered p n, after, List.mem_append]
      exact or_iff_left (mark_other draws r p n)

theorem refines_desk : Desk.watch.Refines watch fun v u => OfDesk v.desk u :=
  fun _ _ _ related allowed => ⟨trivial, fun r => ofDesk_after related allowed.1 r⟩

theorem ofDesk_start (ms : List Message) : OfDesk (.idle (ms.filterMap ticketOf)) {} := by
  refine ⟨trivial, trivial, ?_, ?_⟩
  · intro before p n later split
    cases before <;> cases split
  · intro p n
    constructor
    · intro marked
      cases marked
    · rintro ⟨t, at_place, numbered⟩
      obtain ⟨m, -, own⟩ := List.mem_filterMap.mp (List.mem_of_getElem? at_place)
      obtain ⟨e, -, rfl⟩ := Option.map_eq_some_iff.mp own
      cases numbered

end Diary

def placeIn (ms : List Message) (k : Nat) : Nat := ((ms.take k).filterMap ticketOf).length

theorem placeIn_readable {m : Message} {t : Ticket} (readable : m.decode = .ok t.event) (ms : List Message) (k : Nat) :
    placeIn (m :: ms) (k + 1) = placeIn ms k + 1 := by
  simp [placeIn, ticketOf, readable, Except.toOption]

theorem placeIn_unreadable {m : Message} {detail : String} (h : m.decode = .error detail) (ms : List Message) (k : Nat) :
    placeIn (m :: ms) (k + 1) = placeIn ms k := by
  simp [placeIn, ticketOf, h, Except.toOption]

theorem settles_ticket {ms : List Message} {items : List Item} {front : List Passed} (h : Settles ms items front)
    {k : Nat} {r : Result} {n : Int} (at_item : items[k]? = some (.settled r n)) :
    ∃ t, (front.map Passed.ticket)[placeIn ms k]? = some t ∧ t.sequence = some n := by
  induction h generalizing k with
  | nil => cases at_item
  | refused h rest ih =>
    cases k with
    | zero => cases at_item
    | succ k =>
      rw [placeIn_unreadable h]
      exact ih at_item
  | written r' readable own numbered rest ih =>
    cases k with
    | zero =>
      cases at_item
      exact ⟨_, rfl, numbered⟩
    | succ k =>
      rw [placeIn_readable readable]
      exact ih at_item
  | unknown readable own rest ih =>
    cases k with
    | zero => cases at_item
    | succ k =>
      rw [placeIn_readable readable]
      exact ih at_item

theorem ends_ticket {ms : List Message} {v : View} {os : List Outcome} (ends : Ends ms v os) {k : Nat} {r : Result}
    {n : Int} (settled : os[k]? = some (.settled r n)) :
    ∃ t, v.desk.tickets[placeIn ms k]? = some t ∧ t.sequence = some n := by
  cases ends with
  | @committed front items settles =>
    rw [List.getElem?_map] at settled
    obtain ⟨item, at_item, same⟩ := Option.map_eq_some_iff.mp settled
    cases item with
    | settled r' n' =>
      cases same
      exact settles_ticket settles at_item
    | refused | unknown => cases same
  | @givenUp slots reason failed fits =>
    rw [List.getElem?_map] at settled
    obtain ⟨slot, -, same⟩ := Option.map_eq_some_iff.mp settled
    cases slot <;> cases same

structure Book where
  draws : Nat → Draws := fun _ => {}
  marks : List (Nat × Mark) := []

namespace Book

def enter (b : Book) (x : Nat × Exchange) : Book :=
  ⟨Function.update b.draws x.1 ((b.draws x.1).after x.2.1 x.2.2),
    b.marks ++ (Mark.of (b.draws x.1) x.2).toList.map (x.1, ·)⟩

def of (xs : Chronicle) : Book := xs.foldl enter {}

theorem of_snoc (xs : Chronicle) (x : Nat × Exchange) : of (xs ++ [x]) = (of xs).enter x :=
  List.foldl_concat ..

theorem of_part (xs : Chronicle) (i : Nat) :
    (of xs).draws i = (Diary.watch.track {} (partOf i xs)).draws ∧
      partOf i (of xs).marks = (Diary.watch.track {} (partOf i xs)).marks := by
  induction xs using List.reverseRecOn with
  | nil => exact ⟨rfl, rfl⟩
  | append_singleton xs x ih =>
    obtain ⟨j, x⟩ := x
    rw [of_snoc, partOf_append, enter, partOf_append, Watch.track_append]
    by_cases own : j = i
    · subst own
      have part : partOf j [(j, x)] = [x] := partOf_own [x]
      rw [part, partOf_own, ih.2, ih.1]
      exact ⟨Function.update_self .., rfl⟩
    · have part : partOf i [(j, x)] = [] := partOf_other own [x]
      rw [part, partOf_other own, List.append_nil]
      exact ⟨(Function.update_of_ne (Ne.symm own) ..).trans ih.1, ih.2⟩

end Book

def Mark.number? : Mark → Option Int
  | .drew _ n => some n
  | .looked _ => none

def drawn? : Exchange → Option Int
  | ⟨.draw, n⟩ => some n
  | _ => none

theorem mark_number (v : Draws) (x : Exchange) : (Mark.of v x).bind Mark.number? = drawn? x := by
  obtain ⟨q, r⟩ := x
  cases q with
  | store c => cases c <;> rfl
  | _ => rfl

def numbersDrawn (xs : Chronicle) : List Int := xs.filterMap fun x => drawn? x.2

theorem book_numbers (xs : Chronicle) : (Book.of xs).marks.filterMap (fun x => x.2.number?) = numbersDrawn xs := by
  unfold numbersDrawn
  induction xs using List.reverseRecOn with
  | nil => rfl
  | append_singleton xs x ih =>
    obtain ⟨i, x⟩ := x
    rw [Book.of_snoc, Book.enter, List.filterMap_append, List.filterMap_append, ih]
    refine congrArg _ ?_
    have same := mark_number ((Book.of xs).draws i) x
    cases marked : Mark.of ((Book.of xs).draws i) x with
    | none =>
      rw [marked] at same
      simp [← same]
    | some y =>
      rw [marked, Option.bind_some] at same
      simp [List.filterMap_cons, same]

theorem numbersDrawn_snoc (xs : Chronicle) (i : Nat) {q : Ask} {r : q.Reply} {last last' : Int}
    (drawn : Drawn last q r last') :
    last' = last ∧ numbersDrawn (xs ++ [(i, ⟨q, r⟩)]) = numbersDrawn xs ∨
      last' = last + 1 ∧ numbersDrawn (xs ++ [(i, ⟨q, r⟩)]) = numbersDrawn xs ++ [last + 1] := by
  cases q with
  | draw =>
    obtain ⟨rfl, rfl⟩ := drawn
    exact Or.inr ⟨rfl, List.filterMap_append⟩
  | _ => exact Or.inl ⟨drawn, List.filterMap_append.trans (List.append_nil _)⟩

/-- Each number that is drawn is greater than all that were drawn before. -/
structure Upward (last : Int) (xs : Chronicle) : Prop where
  ascending : (numbersDrawn xs).Pairwise (· < ·)
  bounded : ∀ n ∈ numbersDrawn xs, n ≤ last

theorem upward_asked {last last' : Int} {xs : Chronicle} (h : Upward last xs) (i : Nat) {q : Ask} {r : q.Reply}
    (drawn : Drawn last q r last') : Upward last' (xs ++ [(i, ⟨q, r⟩)]) := by
  rcases numbersDrawn_snoc xs i drawn with ⟨rfl, same⟩ | ⟨rfl, more⟩
  · exact ⟨same ▸ h.ascending, same ▸ h.bounded⟩
  · refine ⟨?_, ?_⟩
    · rw [more]
      refine List.pairwise_append.mpr ⟨h.ascending, List.pairwise_singleton _ _, ?_⟩
      intro n before m now
      rw [List.mem_singleton.mp now]
      exact Int.lt_add_one_of_le (h.bounded n before)
    · intro n member
      rw [more] at member
      rcases List.mem_append.mp member with before | now
      · exact Int.le_add_one (h.bounded n before)
      · exact Int.le_of_eq (List.mem_singleton.mp now)

section Draws

variable {σ ε : Type} (settler : Instant → Settler σ) (disturb : ε → σ → σ)

theorem upward_beat {t : Turns (Station σ) Report} {xs : Chronicle} (h : Upward t.state.sequence.last xs)
    (move : Beat (Station.Change ε)) :
    Upward (t.beat (Station.answer settler) (Station.change disturb) move).state.sequence.last
      (xs ++ t.asks (Station.answer settler) move) := by
  have goes := Turns.beat_goes (Station.answer settler) (Station.change disturb) t move
  generalize t.beat (Station.answer settler) (Station.change disturb) move = t' at goes ⊢
  generalize t.asks (Station.answer settler) move = ys at goes ⊢
  cases goes with
  | idle =>
    rw [List.append_nil]
    exact h
  | changed e =>
    rw [List.append_nil]
    cases e <;> exact h
  | asked at_course due => exact upward_asked h _ (answer_drawn t.state _)

theorem upward_run (s : Station σ) (programs : List (Program Report)) (schedule : List (Beat (Station.Change ε))) :
    let start := Turns.start s programs
    Upward (start.run (Station.answer settler) (Station.change disturb) schedule).state.sequence.last
      (start.chronicle (Station.answer settler) (Station.change disturb) schedule) := by
  intro start
  rw [← List.nil_append (Turns.chronicle ..)]
  exact Turns.run_preserves (P := fun (t : Turns (Station σ) Report) xs => Upward t.state.sequence.last xs)
    (fun _ _ move h => upward_beat settler disturb h move) ⟨.nil, List.forall_mem_nil _⟩ schedule

end Draws

/-- A message has been looked up, and its one number was drawn after that. -/
structure Span (marks : List (Nat × Mark)) (i place : Nat) (n : Int) : Prop where
  looked : (i, .looked place) ∈ marks
  drew : (i, .drew place n) ∈ marks
  ordered : marks.idxOf (i, .looked place) < marks.idxOf (i, .drew place n)
  single : ∀ m, (i, .drew place m) ∈ marks → m = n

theorem span_of_desk {marks : List (Nat × Mark)} {i place : Nat} {n : Int} {d : Desk} {v : Diary}
    (of_desk : Diary.OfDesk d v) (part : partOf i marks = v.marks) {t : Ticket}
    (at_place : d.tickets[place]? = some t) (numbered : t.sequence = some n) : Span marks i place n := by
  have drew_iff (m : Int) : (i, .drew place m) ∈ marks ↔ t.sequence = some m := by
    rw [← mem_partOf, part, of_desk.numbered]
    simp [at_place]
  have drew : (i, .drew place n) ∈ marks := (drew_iff n).mpr numbered
  obtain ⟨before, later, split, first⟩ := List.eq_append_cons_of_mem drew
  obtain ⟨looked, -⟩ := of_desk.ordered _ place n _ (part ▸ partOf_split split)
  have earlier : (i, .looked place) ∈ before := mem_partOf.mp looked
  refine ⟨split ▸ List.mem_append_left _ earlier, drew, ?_, ?_⟩
  · rw [split, List.idxOf_append_of_mem earlier, List.idxOf_append_of_notMem first, List.idxOf_cons_self, Nat.add_zero]
    exact List.idxOf_lt_length_of_mem earlier
  · intro m member
    exact Option.some.inj (((drew_iff m).mp member).symm.trans numbered)

def messagesOf (calls : Calls) (i : Nat) : List Message := (calls[i]?.map Prod.snd).getD []

/-- What the report of a batch that has ended says of a message of it. -/
def Turns.outcome? {σ : Type} (t : Turns σ Report) (i k : Nat) : Option Outcome :=
  (t.courses[i]?.bind Course.result?).bind fun report => report.outcomes[k]?

/-- How the sequences of two messages compare. -/
structure Compared (marks : List (Nat × Mark)) (i p : Nat) (n : Int) (j q : Nat) (m : Int) : Prop where
  first : Span marks i p n
  second : Span marks j q m
  draws : n < m ↔ marks.idxOf (i, .drew p n) < marks.idxOf (j, .drew q m)
  unique : n = m → i = j ∧ p = q
  apart : marks.idxOf (i, .drew p n) < marks.idxOf (j, .looked q) → n < m

theorem compared_of_spans {marks : List (Nat × Mark)} {i p j q : Nat} {n m : Int}
    (ascending : (marks.filterMap fun x => x.2.number?).Pairwise (· < ·)) (first : Span marks i p n)
    (second : Span marks j q m) : Compared marks i p n j q m := by
  have draws := idxOf_number ascending first.drew second.drew rfl rfl
  have draws' := idxOf_number ascending second.drew first.drew rfl rfl
  refine ⟨first, second, draws, ?_, fun before => draws.mpr (Nat.lt_trans before second.ordered)⟩
  intro same
  have place : marks.idxOf (i, .drew p n) = marks.idxOf (j, .drew q m) := by omega
  have mark := (List.idxOf_inj first.drew).mp place
  simp only [Prod.mk.injEq, Mark.drew.injEq] at mark
  exact ⟨mark.1, mark.2.1⟩

section Runs

variable {σ ε : Type} {settler : Instant → Settler σ} {disturb : ε → σ → σ}

theorem settled_span (s : Station σ) (calls : Calls) (schedule : List (Beat (Station.Change ε))) {i k : Nat} {r : Result}
    {n : Int} :
    let start := Turns.start s (calls.map fun call => processBatch call.1 call.2)
    (start.run (Station.answer settler) (Station.change disturb) schedule).outcome? i k = some (.settled r n) →
      Span (Book.of (start.chronicle (Station.answer settler) (Station.change disturb) schedule)).marks i
        (placeIn (messagesOf calls i) k) n := by
  intro start settled
  obtain ⟨report, ended, outcome⟩ := Option.bind_eq_some_iff.mp settled
  obtain ⟨c, at_course, result⟩ := Option.bind_eq_some_iff.mp ended
  obtain ⟨⟨p, program, course⟩, asked⟩ := Turns.run_tells s _ schedule at_course
  rw [List.getElem?_map] at program
  obtain ⟨⟨b, ms⟩, at_call, rfl⟩ := Option.map_eq_some_iff.mp program
  have messages : messagesOf calls i = ms := by simp [messagesOf, at_call]
  have of_desk := Program.track_refines Diary.refines_desk (Diary.ofDesk_start ms) (processBatch_keeps b ms) course
  rw [Course.Of, result_done result] at course
  obtain ⟨t, at_place, numbered⟩ := ends_ticket (Program.keeps_leads (processBatch_keeps b ms) course) outcome
  rw [messages]
  rw [asked] at of_desk at_place
  exact span_of_desk of_desk (Book.of_part _ i).2 at_place numbered

/-- Whatever the schedule, the store and the batches are. -/
theorem sequences_tell_draws (s : Station σ) (calls : Calls) (schedule : List (Beat (Station.Change ε)))
    (i k j l : Nat) (r r' : Result) (n m : Int) :
    let start := Turns.start s (calls.map fun call => processBatch call.1 call.2)
    let stop := start.run (Station.answer settler) (Station.change disturb) schedule
    let marks := (Book.of (start.chronicle (Station.answer settler) (Station.change disturb) schedule)).marks
    stop.outcome? i k = some (.settled r n) → stop.outcome? j l = some (.settled r' m) →
      Compared marks i (placeIn (messagesOf calls i) k) n j (placeIn (messagesOf calls j) l) m := by
  intro start stop marks first second
  have upward := upward_run settler disturb s (calls.map fun call => processBatch call.1 call.2) schedule
  have ascending : (marks.filterMap fun x => x.2.number?).Pairwise (· < ·) := by
    rw [book_numbers]
    exact upward.ascending
  exact compared_of_spans ascending (settled_span s calls schedule first) (settled_span s calls schedule second)

end Runs

def rivalCalls : Calls := [(twice, [taking 0 0]), (twice, [taking 1 0])]

def rivals : MemoryTurns :=
  .start (stand.opening [⟨1, 5, epoch⟩] [⟨.decrement, .unavailable "connection reset", 0, 1⟩])
    (rivalCalls.map fun call => processBatch call.1 call.2)

def overtaken : List (Beat (Station.Change Arming)) :=
  List.replicate 5 (.turn 0) ++ List.replicate 10 (.turn 1) ++ List.replicate 11 (.turn 0)

theorem sequences_tell_draws_rivals :
    let stop := rivals.run (Station.answer Faulty.settleMemory) (Station.change Faulty.arm) overtaken
    let asked := rivals.chronicle (Station.answer Faulty.settleMemory) (Station.change Faulty.arm) overtaken
    let marks := (Book.of asked).marks
    stop.outcome? 1 0 = some (.settled .success 1) ∧ stop.outcome? 0 0 = some (.settled .success 2) ∧
      Compared marks 1 (placeIn (messagesOf rivalCalls 1) 0) 1 0 (placeIn (messagesOf rivalCalls 0) 0) 2 := by
  intro stop asked marks
  have first : stop.outcome? 1 0 = some (.settled .success 1) := by decide +kernel
  have second : stop.outcome? 0 0 = some (.settled .success 2) := by decide +kernel
  exact ⟨first, second, sequences_tell_draws _ rivalCalls overtaken 1 0 0 0 .success .success 1 2 first second⟩

/-- The first batch is looked up first, and its sequence is the greater one. -/
theorem looked_up_first_numbered_second :
    let stop := rivals.run (Station.answer Faulty.settleMemory) (Station.change Faulty.arm) overtaken
    let asked := rivals.chronicle (Station.answer Faulty.settleMemory) (Station.change Faulty.arm) overtaken
    let marks := (Book.of asked).marks
    stop.outcome? 0 0 = some (.settled .success 2) ∧ stop.outcome? 1 0 = some (.settled .success 1) ∧
      marks = [(0, .looked 0), (1, .looked 0), (1, .drew 0 1), (0, .looked 0), (0, .drew 0 2)] ∧
      marks.idxOf (0, .looked 0) < marks.idxOf (1, .looked 0) ∧ ¬ (2 : Int) < 1 := by
  decide +kernel

end CampaignSettlement.Settlement
