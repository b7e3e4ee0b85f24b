import Mathlib.Data.List.Nodup
import Mathlib.Data.Option.Basic
import CampaignSettlement.Proofs.Settlement.Clearing
import CampaignSettlement.Proofs.Settlement.Drawing
import CampaignSettlement.Proofs.Settlement.Logging
import CampaignSettlement.Proofs.Settlement.Passing
import CampaignSettlement.Proofs.Settlement.Totals

/-!
The numbers in the log. Workers draw from one sequence, and each keeps on its tickets what it has drawn; so no number
is on two tickets, and every number from the start of the sequence to its present value is on one. The log has those
that were committed, and it has all of them if every batch was.
-/
namespace CampaignSettlement.Settlement

open Ledger (Entry Record)
open Wire (Message)

def numbersOf (r : Round) : List Int := r.desk.tickets.filterMap Ticket.sequence

def numbersAt (past : List Round) (now : Round) : List Int := (past ++ [now]).flatMap numbersOf

/-- The numbers from `start` to `last` have been given out, each at one place. -/
structure GivenOut (start last : Int) (at_place : Int → List Int) : Prop where
  ahead : start ≤ last
  own : ∀ y, (at_place y).Nodup
  apart : ∀ y z n, n ∈ at_place y → n ∈ at_place z → y = z
  drawn : ∀ n, (∃ y, n ∈ at_place y) ↔ start < n ∧ n ≤ last

theorem givenOut_start (start : Int) : GivenOut start start fun _ => [] := by
  refine ⟨Int.le_refl _, fun _ => .nil, ?_, ?_⟩
  · intro y z n member
    cases member
  · intro n
    constructor
    · rintro ⟨y, member⟩
      cases member
    · intro between
      omega

theorem givenOut_same {start last : Int} {before after : Int → List Int} (h : GivenOut start last before)
    (same : ∀ y, after y = before y) : GivenOut start last after := by
  obtain rfl : after = before := funext same
  exact h

theorem givenOut_draw {start last : Int} {before after : Int → List Int} (h : GivenOut start last before) {y : Int}
    (here : (after y).Perm ((last + 1) :: before y)) (others : ∀ z ≠ y, after z = before z) :
    GivenOut start (last + 1) after := by
  -- the next number is greater than all that are out, so it is at no place yet
  have fresh : ∀ z, last + 1 ∉ before z := by
    intro z member
    have early := ((h.drawn _).mp ⟨z, member⟩).2
    omega
  have member_after : ∀ z n, n ∈ after z ↔ n ∈ before z ∨ z = y ∧ n = last + 1 := by
    intro z n
    by_cases same : z = y
    · subst same
      rw [here.mem_iff, List.mem_cons]
      simp [or_comm]
    · simp [others z same, same]
  refine ⟨by have := h.ahead; omega, ?_, ?_, ?_⟩
  · intro z
    by_cases same : z = y
    · subst same
      exact here.nodup_iff.mpr (List.nodup_cons.mpr ⟨fresh z, h.own z⟩)
    · rw [others z same]
      exact h.own z
  · intro z w n first second
    rcases (member_after z n).mp first with old | ⟨rfl, rfl⟩ <;>
      rcases (member_after w _).mp second with old' | ⟨rfl, same⟩
    · exact h.apart z w n old old'
    · exact absurd (same ▸ old) (fresh z)
    · exact absurd old' (fresh w)
    · rfl
  · intro n
    simp only [member_after]
    constructor
    · rintro ⟨z, old | ⟨-, rfl⟩⟩
      · have between := (h.drawn n).mp ⟨z, old⟩
        omega
      · have ahead := h.ahead
        omega
    · intro between
      by_cases last_one : n = last + 1
      · exact ⟨y, Or.inr ⟨rfl, last_one⟩⟩
      · obtain ⟨z, old⟩ := (h.drawn n).mpr (by omega)
        exact ⟨z, Or.inl old⟩

theorem numbers_after {d : Desk} {q : Ask} {r : q.Reply} {last last' : Int} (allowed : d.allows q)
    (drawn : Drawn last q r last') :
    last' = last ∧ (d.after q r).tickets = d.tickets ∨
      last' = last + 1 ∧ ((d.after q r).tickets.filterMap Ticket.sequence).Perm
        ((last + 1) :: d.tickets.filterMap Ticket.sequence) := by
  by_cases draws : q = .draw
  · subst draws
    obtain ⟨rfl, rfl⟩ := drawn
    obtain ⟨work, front, result, t, back, rfl, undrawn⟩ := draw_undrawn allowed
    refine Or.inr ⟨rfl, ?_⟩
    simp only [Desk.after, Desk.go, Desk.tickets, List.filterMap_append, List.filterMap_cons, undrawn]
    exact List.perm_middle
  · have same : last' = last := by
      cases q with
      | draw => exact absurd rfl draws
      | _ => exact drawn
    exact Or.inl ⟨same, tickets_after allowed draws r⟩

def Numbered (start : Int) : Knowledge := fun past now s =>
  GivenOut start s.sequence.last fun y => numbersAt (past y) (now y)

def SameSequence : Shift := fun s s' => s'.sequence = s.sequence

theorem numbersOf_fresh (batch : List Message) : numbersOf ⟨batch, []⟩ = [] := by
  refine List.filterMap_eq_nil_iff.mpr ?_
  intro t member
  obtain ⟨m, -, same⟩ := List.mem_filterMap.mp member
  obtain ⟨e, -, rfl⟩ := Option.map_eq_some_iff.mp same
  rfl

theorem numbersAt_snoc (past : List Round) (now : Round) :
    numbersAt past now = past.flatMap numbersOf ++ numbersOf now := by
  simp [numbersAt]

theorem numbered_upkeep (b : Backoff) (Q : Int → Message → Prop) (start : Int) :
    Upkeep b Q SameSequence (Numbered start) where
  queues h pool signals := h
  begun := by
    intro past now s y batch h fresh expected
    refine givenOut_same h ?_
    intro z
    by_cases own : z = y
    · subst own
      rw [Function.update_self, fresh, numbersAt_snoc, numbersAt_snoc, numbersOf_fresh, Round.none, numbersOf_fresh]
    · rw [Function.update_of_ne own]
  asked := by
    intro past now s y q next h accord expected course
    have allowed : (now y).desk.allows q := round_allows course rfl
    rw [Numbered]
    rcases numbers_after allowed (answer_drawn s q) with ⟨unmoved, kept⟩ | ⟨moved, more⟩
    · rw [unmoved]
      refine givenOut_same h ?_
      intro z
      by_cases own : z = y
      · subst own
        rw [Function.update_self, numbersAt_snoc, numbersAt_snoc, numbersOf, numbersOf, round_desk_ask, kept]
      · rw [Function.update_of_ne own]
    · rw [moved]
      refine givenOut_draw h ?_ fun z other => by rw [Function.update_of_ne other]
      rw [Function.update_self, numbersAt_snoc, numbersAt_snoc, numbersOf, round_desk_ask]
      exact (more.append_left _).trans List.perm_middle
  closed := by
    intro past now s y goesOn h expected course
    refine givenOut_same h ?_
    intro z
    by_cases own : z = y
    · subst own
      rw [Function.update_self, Function.update_self, numbersAt_snoc, Round.none, numbersOf_fresh, List.append_nil]
      rfl
    · rw [Function.update_of_ne own, Function.update_of_ne own]
  changed := by
    intro past now s s' h same
    rw [Numbered, same]
    exact h

theorem committed_numbers {d : Desk} (signed : d.Signed) :
    (d.committed.map Entry.sequence).Sublist (d.tickets.filterMap Ticket.sequence) := by
  cases d with
  | idle | opened => exact List.nil_sublist _
  | settled front =>
    change ((front.filterMap Passed.entry).map Entry.sequence).Sublist
      ((front.map Passed.ticket).filterMap Ticket.sequence)
    have own : ∀ x ∈ front, ∀ e ∈ x.entry, x.ticket.sequence = some e.sequence := signed
    clear signed
    induction front with
    | nil => exact .slnil
    | cons x front ih =>
      have rest := ih fun y member => own y (List.mem_cons_of_mem _ member)
      cases written : x.entry with
      | none =>
        cases drawn : x.ticket.sequence with
        | none => simpa [written, drawn] using rest
        | some n => simpa [written, drawn] using rest.cons n
      | some e =>
        have drawn := own x List.mem_cons_self e written
        simpa [written, drawn] using rest.cons_cons e.sequence

theorem entries_numbers {past : List Round} {now : Round} (signed : ∀ r ∈ past ++ [now], r.desk.Signed) :
    ((entriesOf past now).map Entry.sequence).Sublist (numbersAt past now) := by
  have all (rounds : List Round) (signed : ∀ r ∈ rounds, r.desk.Signed) :
      ((rounds.flatMap fun r => r.desk.committed).map Entry.sequence).Sublist (rounds.flatMap numbersOf) := by
    induction rounds with
    | nil => exact .slnil
    | cons r rounds ih =>
      rw [List.flatMap_cons, List.flatMap_cons, List.map_append]
      exact (committed_numbers (signed r List.mem_cons_self)).append
        (ih fun r member => signed r (List.mem_cons_of_mem _ member))
  have here := all (past ++ [now]) signed
  simpa [entriesOf, numbersAt] using here

theorem records_sequences {es : List Entry} {rs : List Record} (h : List.Forall₂ Records es rs) :
    rs.map Record.sequence = (es.map Entry.sequence).map some := by
  induction h with
  | nil => rfl
  | cons here rest ih =>
    rw [List.map_cons, List.map_cons, List.map_cons, ih, here]
    rfl

theorem nodup_of_fibers {α β κ : Type} [DecidableEq κ] {f : α → κ} {g : α → β} {l : List α}
    (each : ∀ k, ((l.filter (f · = k)).map g).Nodup) (apart : ∀ a ∈ l, ∀ b ∈ l, g a = g b → f a = f b) :
    (l.map g).Nodup := by
  induction l with
  | nil => exact .nil
  | cons a l ih =>
    rw [List.map_cons, List.nodup_cons]
    constructor
    · intro member
      obtain ⟨b, later, same⟩ := List.mem_map.mp member
      have key : f b = f a := apart b (List.mem_cons_of_mem _ later) a List.mem_cons_self same
      have own := each (f a)
      rw [List.filter_cons_of_pos (by simp), List.map_cons, List.nodup_cons] at own
      exact own.1 (same ▸ List.mem_map_of_mem (List.mem_filter.mpr ⟨later, by simpa using key⟩))
    · refine ih ?_ fun b first c second => apart b (List.mem_cons_of_mem _ first) c (List.mem_cons_of_mem _ second)
      intro k
      exact ((each k).sublist (((List.sublist_cons_self a l).filter _).map g))

section Logged

variable {past : Int → List Round} {now : Int → Round} {new : List Record}

theorem logged_entered (logged : LoggedBy past now new) {r : Record} (member : r ∈ new) :
    ∃ y n, r.partition = some y ∧ r.sequence = some n ∧ n ∈ (entriesOf (past y) (now y)).map Entry.sequence := by
  obtain ⟨y, at_y⟩ := logged.placed r member
  have here : r ∈ recordsAt y new := List.mem_filter.mpr ⟨member, by simpa using at_y⟩
  have sequence : r.sequence ∈ ((entriesOf (past y) (now y)).map Entry.sequence).map some :=
    records_sequences (logged.own y) ▸ List.mem_map_of_mem here
  obtain ⟨n, entered, same⟩ := List.mem_map.mp sequence
  exact ⟨y, n, at_y, same.symm, entered⟩

theorem entered_logged (logged : LoggedBy past now new) {y n : Int}
    (entered : n ∈ (entriesOf (past y) (now y)).map Entry.sequence) : ∃ r ∈ new, r.sequence = some n := by
  have sequence : some n ∈ ((entriesOf (past y) (now y)).map Entry.sequence).map some := List.mem_map_of_mem entered
  rw [← records_sequences (logged.own y)] at sequence
  obtain ⟨r, at_y, same⟩ := List.mem_map.mp sequence
  exact ⟨r, (List.mem_filter.mp at_y).1, same⟩

theorem sequences_some {rs : List Record} (numbered : ∀ r ∈ rs, ∃ n, r.sequence = some n) :
    rs.map Record.sequence = (rs.filterMap Record.sequence).map some := by
  induction rs with
  | nil => rfl
  | cons r rs ih =>
    obtain ⟨n, sequence⟩ := numbered r List.mem_cons_self
    rw [List.map_cons, List.filterMap_cons, sequence, List.map_cons,
      ih fun r member => numbered r (List.mem_cons_of_mem _ member)]

variable {start last : Int} (signed : ∀ y, ∀ r ∈ past y ++ [now y], r.desk.Signed)
  (given : GivenOut start last fun y => numbersAt (past y) (now y))

include signed given

theorem logged_distinct (logged : LoggedBy past now new) : (new.map Record.sequence).Nodup := by
  refine nodup_of_fibers (f := Record.partition) ?_ ?_
  · rintro (_ | y)
    · have none_there : new.filter (·.partition = none) = [] := by
        refine List.filter_eq_nil_iff.mpr ?_
        intro r member
        obtain ⟨y, n, at_y, -⟩ := logged_entered logged member
        simp [at_y]
      rw [none_there]
      exact .nil
    · change ((recordsAt y new).map Record.sequence).Nodup
      rw [records_sequences (logged.own y)]
      exact ((given.own y).sublist (entries_numbers (signed y))).map (Option.some_injective _)
  · intro r first r' second same
    obtain ⟨y, n, at_y, sequence, entered⟩ := logged_entered logged first
    obtain ⟨z, m, at_z, sequence', entered'⟩ := logged_entered logged second
    obtain rfl : n = m := Option.some.inj (sequence.symm.trans (same.trans sequence'))
    have at_first := (entries_numbers (signed y)).subset entered
    have at_second := (entries_numbers (signed z)).subset entered'
    rw [at_y, at_z, given.apart y z n at_first at_second]

theorem logged_numbers (logged : LoggedBy past now new) :
    ∃ numbers : List Int, new.map Record.sequence = numbers.map some ∧ numbers.Nodup ∧
      ∀ n, n ∈ numbers ↔ ∃ y, n ∈ (entriesOf (past y) (now y)).map Entry.sequence := by
  have sequences := sequences_some fun r member => by
    obtain ⟨y, n, -, sequence, -⟩ := logged_entered logged member
    exact ⟨n, sequence⟩
  refine ⟨new.filterMap Record.sequence, sequences, ?_, ?_⟩
  · have distinct := logged_distinct signed given logged
    rw [sequences] at distinct
    exact List.Nodup.of_map some distinct
  · intro n
    constructor
    · intro member
      obtain ⟨r, at_log, sequence⟩ := List.mem_filterMap.mp member
      obtain ⟨y, m, -, same, entered⟩ := logged_entered logged at_log
      obtain rfl : m = n := Option.some.inj (same.symm.trans sequence)
      exact ⟨y, entered⟩
    · rintro ⟨y, entered⟩
      obtain ⟨r, at_log, sequence⟩ := entered_logged logged entered
      exact List.mem_filterMap.mpr ⟨r, at_log, sequence⟩

end Logged

section Settled

variable {b : Backoff} {size : Nat} {partition : Int} {known : Int → Prop}

theorem round_tally {batch : List Message} {asked : List Exchange} {rest : Program Bool}
    (course : (round b partition batch).Leads asked rest) :
    Tally.OfDesk (deskAfter batch asked) (Tally.watch.track {} asked) := by
  have refines : Desk.roundWatch.Refines Tally.watch fun v t => Tally.OfDesk v.desk t :=
    fun _ _ _ related allowed => ⟨trivial, fun r => Tally.ofDesk_after related allowed r⟩
  exact Program.track_refines refines (Tally.ofDesk_start _) (round_keeps b partition batch) course

theorem commits_settled {d : Desk} {t : Tally} (related : Tally.OfDesk d t) (commits : 0 < t.commits) :
    ∃ front, d = .settled front := by
  cases d with
  | idle tickets =>
    have none := related.2
    omega
  | opened work front step back =>
    have none := related.2.2
    omega
  | settled front => exact ⟨front, rfl⟩

theorem settled_numbers {front : List Passed} (signed : (Desk.settled front).Signed)
    (agrees : (Desk.settled front).Agrees known) :
    (Desk.settled front).tickets.filterMap Ticket.sequence = (Desk.settled front).committed.map Entry.sequence := by
  simp only [Desk.tickets, Desk.committed, List.filterMap_map, List.map_filterMap]
  refine List.filterMap_congr ?_
  intro x member
  cases written : x.entry with
  | some e => simpa using signed x member e written
  | none =>
    cases drawn : x.ticket.sequence with
    | none => simpa using drawn
    | some n =>
      have here := agrees.numbered x.ticket (List.mem_map_of_mem member) (by rw [drawn]; rfl)
      have entered := (agrees.passed x member).mpr here
      rw [written] at entered
      cases entered

theorem unread_tickets {ms : List Message} {d : Desk} (reads : d.Reads ms) (none_readable : readable ms = []) :
    d.tickets = [] := by
  have none_there : ms.filterMap cardOf = [] := by
    refine List.filterMap_eq_nil_iff.mpr ?_
    intro m member
    have unread := List.filter_eq_nil_iff.mp none_readable m member
    simpa [cardOf] using unread
  have cards := reads.cards
  rw [none_there] at cards
  exact List.map_eq_nil_iff.mp cards

def Round.Commits (r : Round) : Prop := readable r.batch ≠ [] → 0 < (Tally.watch.track {} r.asked).commits

theorem round_settled {r : Round} {goesOn : Bool} (ended : r.Ended b size partition goesOn) (commits : r.Commits) :
    r.Settled := by
  by_cases none_readable : readable r.batch = []
  · exact Or.inr none_readable
  · exact Or.inl (commits_settled (round_tally ended.course) (commits none_readable))

theorem round_numbers {r : Round} {goesOn : Bool} (ended : r.Ended b size partition goesOn) (settled : r.Settled)
    (signed : r.desk.Signed) (agrees : r.desk.Agrees known) : numbersOf r = r.desk.committed.map Entry.sequence := by
  rcases settled with ⟨front, at_desk⟩ | none_readable
  · rw [numbersOf, at_desk]
    rw [at_desk] at signed agrees
    exact settled_numbers signed agrees
  · have reads : r.desk.Reads r.batch := round_reads ended.course
    have none_drawn : r.desk.tickets.filterMap Ticket.sequence = [] := by
      rw [unread_tickets reads none_readable]
      rfl
    have none_entered := committed_numbers signed
    rw [none_drawn, List.sublist_nil] at none_entered
    rw [numbersOf, none_drawn, none_entered]

theorem idle_numbers {w : Worker} (idle : w.phase = .idle)
    (ended : ∀ r ∈ w.past, ∃ goesOn, r.Ended b size partition goesOn) (settled : ∀ r ∈ w.past, r.Settled)
    (signed : ∀ r ∈ w.past, r.desk.Signed) (agrees : ∀ r ∈ w.past, r.desk.Agrees known) :
    numbersAt w.past w.now = (entriesOf w.past w.now).map Entry.sequence := by
  have now : w.now = .none := by rw [Worker.now, idle]
  rw [now, numbersAt_snoc, Round.none, numbersOf_fresh, List.append_nil, entriesOf, List.map_append, List.map_flatMap]
  refine Eq.trans (List.flatMap_congr ?_) (List.append_nil _).symm
  intro r member
  obtain ⟨goesOn, own⟩ := ended r member
  exact round_numbers own (settled r member) (signed r member) (agrees r member)

end Settled

def Consecutive (start : Int) (numbers : List Int) : Prop :=
  numbers.Perm ((List.range numbers.length).map fun i : Nat => start + 1 + i)

theorem consecutive_of_exact {start last : Int} {numbers : List Int} (ahead : start ≤ last) (distinct : numbers.Nodup)
    (exact : ∀ n, n ∈ numbers ↔ start < n ∧ n ≤ last) :
    Consecutive start numbers ∧ last = start + numbers.length := by
  obtain ⟨k, far⟩ : ∃ k : Nat, last = start + k := ⟨(last - start).toNat, by omega⟩
  have all : ((List.range k).map fun i : Nat => start + 1 + (i : Int)).Nodup := by
    refine List.nodup_range.map ?_
    intro i j same
    have numbers : start + 1 + (i : Int) = start + 1 + j := same
    omega
  have perm : numbers.Perm ((List.range k).map fun i : Nat => start + 1 + (i : Int)) := by
    refine (List.perm_ext_iff_of_nodup distinct all).mpr ?_
    intro n
    rw [exact, List.mem_map]
    constructor
    · intro between
      refine ⟨(n - start - 1).toNat, List.mem_range.mpr ?_, ?_⟩ <;> omega
    · rintro ⟨i, member, rfl⟩
      have below := List.mem_range.mp member
      omega
  have length : numbers.length = k := by simpa using perm.length_eq
  rw [Consecutive, length]
  exact ⟨perm, far⟩

end CampaignSettlement.Settlement
