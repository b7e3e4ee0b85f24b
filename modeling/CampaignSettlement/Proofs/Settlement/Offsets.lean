import Mathlib.Data.List.Pairwise
import CampaignSettlement.Proofs.Analysis.Partitions
import CampaignSettlement.Proofs.Settlement.Numbering
import CampaignSettlement.Proofs.Settlement.Serving

/-!
Sequences follow offsets. A worker draws for the messages of its batch in turn, whatever attempts have failed before;
and what it draws is greater than all that was drawn by anybody. So in each partition the sequences of the log rise
with the offsets, and the analysis of a campaign finds no inversion inside a partition.
-/
namespace CampaignSettlement.Settlement

open Analysis (InTurn analyze arrivals excluded_eq mem_arrivals mismatches_none)
open Ledger (Arming CallKind Fault Faulty Injection Launch MemoryLedger Record)
open Wire (Message)

variable {known : Int → Prop}

/-- No message has drawn while one before it, of a known campaign, has not. -/
def Desk.DrawnInTurn (known : Int → Prop) (d : Desk) : Prop :=
  d.tickets.Pairwise fun t u => u.sequence.isSome → known t.event.campaign → t.sequence.isSome

structure Desk.Fair (known : Int → Prop) (d : Desk) : Prop where
  agrees : d.Agrees known
  signed : d.Signed
  in_turn : d.DrawnInTurn known

theorem fair_start (ms : List Message) : (Desk.idle (ms.filterMap ticketOf)).Fair known := by
  refine ⟨agrees_start ms, List.forall_mem_nil _, List.pairwise_of_forall_mem_list ?_⟩
  intro t _ u member drawn
  obtain ⟨m, -, same⟩ := List.mem_filterMap.mp member
  obtain ⟨e, -, rfl⟩ := Option.map_eq_some_iff.mp same
  cases drawn

theorem undrawn_back {work : Nat} {front : List Passed} {r : Ledger.Result} {t : Ticket} {back : List Ticket}
    (fair : (Desk.opened work front (.writing r) (t :: back)).Fair known) (undrawn : t.sequence = none) :
    ∀ u ∈ back, u.sequence = none := by
  intro u member
  have later := (List.pairwise_append.mp fair.in_turn).2.1
  have here : known t.event.campaign := fair.agrees.looked
  cases drawn : u.sequence with
  | none => rfl
  | some n =>
    have first := (List.pairwise_cons.mp later).1 u member (by rw [drawn]; rfl) here
    rw [undrawn] at first
    cases first

theorem passed_drawn {work : Nat} {front : List Passed} {step : Step} {back : List Ticket}
    (fair : (Desk.opened work front step back).Fair known) :
    ∀ t ∈ front.map Passed.ticket, known t.event.campaign → t.sequence.isSome := by
  intro t member here
  obtain ⟨x, at_front, rfl⟩ := List.mem_map.mp member
  obtain ⟨e, written⟩ := Option.isSome_iff_exists.mp ((fair.agrees.passed x at_front).mpr here)
  rw [fair.signed x at_front e written]
  rfl

theorem numbers_draw {d : Desk} (fair : d.Fair known) (allowed : d.allows .draw) (n : Int) :
    (d.after .draw n).tickets.filterMap Ticket.sequence = d.tickets.filterMap Ticket.sequence ++ [n] := by
  obtain ⟨work, front, r, t, back, rfl, undrawn⟩ := draw_undrawn allowed
  have none_later : back.filterMap Ticket.sequence = [] := List.filterMap_eq_nil_iff.mpr (undrawn_back fair undrawn)
  simp only [Desk.after, Desk.go, Desk.tickets, List.filterMap_append, List.filterMap_cons, undrawn, none_later,
    List.append_nil]

theorem inTurn_after {d : Desk} (fair : d.Fair known) {q : Ask} (allowed : d.allows q) (r : q.Reply) :
    (d.after q r).DrawnInTurn known := by
  by_cases draws : q = .draw
  · subst draws
    obtain ⟨work, front, result, t, back, rfl, undrawn⟩ := draw_undrawn allowed
    obtain ⟨first, later, across⟩ := List.pairwise_append.mp fair.in_turn
    obtain ⟨-, rest⟩ := List.pairwise_cons.mp later
    refine List.pairwise_append.mpr ⟨first, List.pairwise_cons.mpr ⟨fun _ _ _ _ => rfl, rest⟩, ?_⟩
    intro x at_front u _ _ here
    exact passed_drawn fair x at_front here
  · rw [Desk.DrawnInTurn, tickets_after allowed draws r]
    exact fair.in_turn

theorem fair_after {d : Desk} (fair : d.Fair known) {q : Ask} {r : q.Reply} (allowed : d.allows q)
    (truthful : Truthful known q r) : (d.after q r).Fair known :=
  ⟨agrees_after fair.agrees allowed truthful, signed_after fair.signed allowed r, inTurn_after fair allowed r⟩

def AllFair (known : Int → Prop) : Knowledge := Each (Tells known) fun r => r.desk.Fair known

theorem fair_upkeep (b : Backoff) (Q : Int → Message → Prop) (known : Int → Prop) :
    Upkeep b Q (StillTells known) (AllFair known) := by
  refine Upkeep.each (fun tells pool signals => tells) fair_start ?_ fun tells still => still tells
  intro s r q tells fair held allowed
  have answered := answer_answered s q
  refine ⟨fun id => by rw [answered_known answered]; exact tells id, ?_⟩
  rw [round_desk_ask]
  exact fair_after fair allowed (answered_truthful tells answered)

/-- Each worker has its numbers in the order of its messages, and they rise. -/
structure Rising (known : Int → Prop) (start : Int) (past : Int → List Round) (now : Int → Round) (s : MemoryStation) :
    Prop where
  numbered : Numbered start past now s
  fair : AllFair known past now s
  rising : ∀ y, (numbersAt (past y) (now y)).Pairwise (· < ·)

def Undisturbed (known : Int → Prop) : Shift := fun s s' => SameSequence s s' ∧ StillTells known s s'

theorem numbersAt_quiet (past : List Round) {now : Round} {q : Ask} (allowed : now.desk.allows q) (other : q ≠ .draw)
    (r : q.Reply) : numbersAt past (now.ask q r) = numbersAt past now := by
  rw [numbersAt_snoc, numbersAt_snoc, numbersOf, numbersOf, round_desk_ask, tickets_after allowed other]

theorem numbersAt_draw (past : List Round) {now : Round} (fair : now.desk.Fair known) (allowed : now.desk.allows .draw)
    (n : Int) : numbersAt past (now.ask .draw n) = numbersAt past now ++ [n] := by
  rw [numbersAt_snoc, numbersAt_snoc, numbersOf, numbersOf, round_desk_ask, numbers_draw fair allowed,
    List.append_assoc]

theorem rising_upkeep (b : Backoff) (Q : Int → Message → Prop) (known : Int → Prop) (start : Int) :
    Upkeep b Q (Undisturbed known) (Rising known start) where
  queues h pool signals :=
    ⟨(numbered_upkeep b Q start).queues h.numbered pool signals, (fair_upkeep b Q known).queues h.fair pool signals,
      h.rising⟩
  begun := by
    intro past now s y batch h fresh expected
    refine ⟨(numbered_upkeep b Q start).begun h.numbered fresh expected,
      (fair_upkeep b Q known).begun h.fair fresh expected, ?_⟩
    intro z
    by_cases own : z = y
    · subst own
      have before := h.rising z
      rw [fresh, numbersAt_snoc, Round.none, numbersOf_fresh] at before
      rwa [Function.update_self, numbersAt_snoc, numbersOf_fresh]
    · rw [Function.update_of_ne own]
      exact h.rising z
  asked := by
    intro past now s y q next h accord expected course
    refine ⟨(numbered_upkeep b Q start).asked h.numbered accord expected course,
      (fair_upkeep b Q known).asked h.fair accord expected course, ?_⟩
    intro z
    by_cases own : z = y
    · subst own
      rw [Function.update_self]
      have allowed : (now z).desk.allows q := round_allows course rfl
      by_cases draws : q = .draw
      · -- all that was given out before is below the number that is drawn now
        subst draws
        rw [numbersAt_draw _ (h.fair.2 z).1 allowed, (answer_drawn s .draw).1]
        refine List.pairwise_append.mpr ⟨h.rising z, List.pairwise_singleton _ _, ?_⟩
        intro n member m last
        obtain rfl := List.mem_singleton.mp last
        have below := ((h.numbered.drawn n).mp ⟨z, member⟩).2
        omega
      · rw [numbersAt_quiet _ allowed draws]
        exact h.rising z
    · rw [Function.update_of_ne own]
      exact h.rising z
  closed := by
    intro past now s y goesOn h expected course
    refine ⟨(numbered_upkeep b Q start).closed h.numbered expected course,
      (fair_upkeep b Q known).closed h.fair expected course, ?_⟩
    intro z
    by_cases own : z = y
    · subst own
      rw [Function.update_self, Function.update_self, numbersAt_snoc, Round.none, numbersOf_fresh, List.append_nil]
      exact h.rising z
    · rw [Function.update_of_ne own, Function.update_of_ne own]
      exact h.rising z
  changed h shifts :=
    ⟨(numbered_upkeep b Q start).changed h.numbered shifts.1, (fair_upkeep b Q known).changed h.fair shifts.2, h.rising⟩

def Below (a b : Option Int) : Prop := ∃ n m, a = some n ∧ b = some m ∧ n < m

/-- `r` stands before `r'` in its partition, and was settled before it. -/
structure Ahead (r r' : Record) : Prop where
  offset : Below r.offset r'.offset
  sequence : Below r.sequence r'.sequence

theorem pairwise_below {α β : Type} {f : α → Option Int} {g : β → Int} {as : List α} {bs : List β}
    (same : as.map f = (bs.map g).map some) (rising : bs.Pairwise fun x y => g x < g y) :
    as.Pairwise fun x y => Below (f x) (f y) := by
  have options : (as.map f).Pairwise Below := by
    rw [same, List.map_map]
    exact List.pairwise_map.mpr (rising.imp fun less => ⟨_, _, rfl, rfl, less⟩)
  exact List.pairwise_map.mp options

theorem recordFor_offsets {ms : List Message} {rs : List Record} (h : List.Forall₂ RecordFor ms rs) :
    rs.map Record.offset = (ms.map fun m => m.receipt.offset).map some := by
  induction h with
  | nil => rfl
  | cons here rest ih => rw [List.map_cons, List.map_cons, List.map_cons, ih, here.offset]

theorem recordFor_mem {ms : List Message} {rs : List Record} (h : List.Forall₂ RecordFor ms rs) {r : Record}
    (member : r ∈ rs) : ∃ m ∈ ms, RecordFor m r := by
  induction h with
  | nil => cases member
  | @cons m s ms rs here rest ih =>
    rcases List.mem_cons.mp member with rfl | later
    · exact ⟨m, List.mem_cons_self, here⟩
    · obtain ⟨n, inside, own⟩ := ih later
      exact ⟨n, List.mem_cons_of_mem _ inside, own⟩

theorem messages_of_records {sent : List Message} {rs : List Record} (each : ∀ r ∈ rs, ∃ m ∈ sent, RecordFor m r) :
    ∃ ms, (∀ m ∈ ms, m ∈ sent) ∧ List.Forall₂ RecordFor ms rs := by
  induction rs with
  | nil => exact ⟨[], List.forall_mem_nil _, .nil⟩
  | cons r rs ih =>
    obtain ⟨m, inside, own⟩ := each r List.mem_cons_self
    obtain ⟨ms, all, rest⟩ := ih fun s member => each s (List.mem_cons_of_mem _ member)
    exact ⟨m :: ms, List.forall_mem_cons.mpr ⟨inside, all⟩, .cons own rest⟩

/-- The offsets tell in what order two records were settled. -/
def Follows (r r' : Record) : Prop :=
  ∀ o ∈ r.offset, ∀ o' ∈ r'.offset, o ≤ o' → ∀ n ∈ r.sequence, ∀ n' ∈ r'.sequence, n ≤ n'

theorem ahead_follows {r r' : Record} (ahead : Ahead r r') : Follows r r' ∧ Follows r' r := by
  obtain ⟨⟨o, o', offset, offset', offsets⟩, n, n', sequence, sequence', sequences⟩ := ahead
  simp only [Follows, offset, offset', sequence, sequence', Option.mem_some_iff, forall_eq']
  omega

theorem pairwise_follows {rs : List Record} (ahead : rs.Pairwise Ahead) {r r' : Record} (first : r ∈ rs)
    (second : r' ∈ rs) : Follows r r' := by
  have both : Std.Symm fun r r' => Follows r r' ∧ Follows r' r := ⟨fun _ _ follows => follows.symm⟩
  have own : ∀ r ∈ rs, Follows r r ∧ Follows r r := by
    intro r _
    have same : Follows r r := by
      intro o _ o' _ _ n sequence n' sequence'
      exact Int.le_of_eq (Option.mem_unique sequence sequence')
    exact ⟨same, same⟩
  exact (List.Pairwise.forall_of_forall own (ahead.imp ahead_follows) first second).1

def OffsetsRise (sent : List Message) : Prop := sent.Pairwise fun m n => m.receipt.offset < n.receipt.offset

instance (sent : List Message) : Decidable (OffsetsRise sent) := inferInstanceAs (Decidable (List.Pairwise ..))

section Logged

variable {b : Backoff} {size : Nat} {c : MemoryCrew} {start : Int} {schedule : List (Move Arming)}

theorem logged_messages (logged : Kept b size (sentTo schedule) (Logged []) c) (y : Int) :
    ∃ part, part.Sublist (sentTo schedule y) ∧
      List.Forall₂ RecordFor part (recordsAt y c.station.store.inner.records) := by
  obtain ⟨new, log, own, -⟩ := logged.known
  rw [List.nil_append] at log
  change c.station.store.inner.records = new at log
  obtain ⟨part, within, written⟩ := lined_isFor (logged.manned.lined y)
  exact ⟨part, within, log ▸ records_recordFor written (own y)⟩

theorem logged_ahead (logged : Kept b size (sentTo schedule) (Logged []) c)
    (rising : Kept b size (sentTo schedule) (Rising known start) c) {y : Int}
    (offsets : OffsetsRise (sentTo schedule y)) :
    (recordsAt y c.station.store.inner.records).Pairwise Ahead := by
  obtain ⟨part, within, recorded⟩ := logged_messages logged y
  obtain ⟨new, log, own, -⟩ := logged.known
  rw [List.nil_append] at log
  change c.station.store.inner.records = new at log
  have signed : ∀ r ∈ (c.worker y).past ++ [(c.worker y).now], r.desk.Signed := by
    intro r member
    rcases List.mem_append.mp member with earlier | last
    · exact ((rising.known.fair.2 y).2 r earlier).signed
    · exact List.mem_singleton.mp last ▸ (rising.known.fair.2 y).1.signed
  have sequences := (rising.known.rising y).sublist (entries_numbers signed)
  have by_sequence := pairwise_below (log ▸ records_sequences (own y)) (List.pairwise_map.mp sequences)
  have by_offset := pairwise_below (recordFor_offsets recorded) (offsets.sublist within)
  exact by_offset.imp₂ (fun _ _ first second => ⟨first, second⟩) by_sequence

theorem logged_message (logged : Kept b size (sentTo schedule) (Logged []) c) {r : Record}
    (member : r ∈ c.station.store.inner.records) : ∃ m ∈ schedule.filterMap Move.sent?, RecordFor m r := by
  obtain ⟨new, log, -, placed⟩ := logged.known
  rw [List.nil_append] at log
  change c.station.store.inner.records = new at log
  obtain ⟨y, at_y⟩ := placed r (log ▸ member)
  obtain ⟨part, within, recorded⟩ := logged_messages logged y
  have here : r ∈ recordsAt y c.station.store.inner.records := List.mem_filter.mpr ⟨member, by simpa using at_y⟩
  obtain ⟨m, in_part, own⟩ := recordFor_mem recorded here
  exact ⟨m, (List.mem_filter.mp (within.subset in_part)).1, own⟩

theorem logged_sequence (logged : Kept b size (sentTo schedule) (Logged []) c) {r : Record}
    (member : r ∈ c.station.store.inner.records) : r.sequence.isSome := by
  obtain ⟨y, e, -, kept⟩ := logged_entry logged member
  rw [kept]
  rfl

end Logged

/-- The log of a run in which the messages `sent` were dispatched: what it has of a partition was settled in the order
of the offsets. -/
structure SettledByOffset (sent : List Message) (log : List Record) : Prop where
  sent : ∀ r ∈ log, ∃ m ∈ sent, RecordFor m r
  settled : ∀ r ∈ log, r.sequence.isSome
  in_order : ∀ p, (recordsAt p log).Pairwise Ahead

/-- The analysis of some of the records: partitions have no inversions, and what is left out was sent at no known
time. -/
structure Unmixed (sent : List Message) (rs : List Record) (limit : Nat) : Prop where
  matched : ∀ row ∈ (analyze rs limit).mismatches, row.2 = 0
  excluded : ∃ ms, (∀ m ∈ ms, m ∈ sent) ∧ List.Forall₂ RecordFor ms rs ∧
    (analyze rs limit).excluded = ms.countP (·.receipt.sentAt.isNone)

variable {sent : List Message} {log : List Record}

theorem inTurn_settled (h : SettledByOffset sent log) {rs : List Record} (within : ∀ r ∈ rs, r ∈ log) :
    InTurn (arrivals rs) := by
  intro a first a' second partitions offsets
  obtain ⟨r, member, partition, offset, -, sequence, -⟩ := mem_arrivals.mp first
  obtain ⟨r', member', partition', offset', -, sequence', -⟩ := mem_arrivals.mp second
  have here : r ∈ recordsAt a.partition log := List.mem_filter.mpr ⟨within r member, by simpa using partition⟩
  have here' : r' ∈ recordsAt a.partition log :=
    List.mem_filter.mpr ⟨within r' member', by simpa [partitions] using partition'⟩
  exact pairwise_follows (h.in_order a.partition) here here' _ offset _ offset' offsets _ sequence _ sequence'

theorem untimed_messages {ms : List Message} {rs : List Record} (h : List.Forall₂ RecordFor ms rs)
    (settled : ∀ r ∈ rs, r.sequence.isSome) (limit : Nat) :
    (analyze rs limit).excluded = ms.countP (·.receipt.sentAt.isNone) := by
  rw [excluded_eq]
  induction h with
  | nil => rfl
  | @cons m r ms rs here rest ih =>
    have own := settled r List.mem_cons_self
    rw [List.countP_cons, List.countP_cons, ih fun s member => settled s (List.mem_cons_of_mem _ member)]
    simp [here.partition, here.offset, here.sentAt, own]

theorem unmixed_settled (h : SettledByOffset sent log) {rs : List Record} (within : ∀ r ∈ rs, r ∈ log) (limit : Nat) :
    Unmixed sent rs limit := by
  obtain ⟨ms, all, recorded⟩ := messages_of_records fun r member => h.sent r (within r member)
  refine ⟨mismatches_none (inTurn_settled h within) limit, ms, all, recorded, ?_⟩
  exact untimed_messages recorded (fun r member => h.settled r (within r member)) limit

/-- Whatever the schedule and the failures are, if each partition is dispatched to with rising offsets. -/
theorem partitions_settle_by_offset (launches : List Launch) (b : Backoff) (s : Station (Faulty MemoryLedger))
    (injections : List (Injection CallKind Fault)) (batchSize capacity : Nat) (flow : Bool)
    (schedule : List (Move Arming)) (rise : ∀ p, OffsetsRise (sentTo schedule p)) :
    let start := Crew.start (s.opening launches injections) batchSize capacity flow
    let ledger := (start.run Faulty.settleMemory Faulty.arm b schedule).station.store.inner
    let sent := schedule.filterMap Move.sent?
    SettledByOffset sent ledger.records ∧ ∀ campaign limit, Unmixed sent (ledger.recordsOf campaign) limit := by
  intro start ledger sent
  let opened := s.opening launches injections
  have orderly : opened.holdings.Orderly := MemoryLedger.opening_orderly launches
  have placed : Expected Placed (sentTo schedule) := sent_placed schedule
  obtain ⟨empty, -, -⟩ := MemoryLedger.opening_rows launches {}
  have logged := kept_after (logged_upkeep b []) orderly ⟨[], empty, fun _ => .nil, List.forall_mem_nil _⟩ batchSize
    capacity flow schedule placed fun e _ => arm_allowed fun s => congrArg Ledger.Holdings.records (change_holdings s e)
  have rising := kept_after (rising_upkeep b Placed (fun id => (opened.holdings.campaigns.get? id).isSome)
      opened.sequence.last) orderly
    ⟨givenOut_start _, ⟨fun _ => Iff.rfl, fun _ => ⟨fair_start [], List.forall_mem_nil _⟩⟩, fun _ => .nil⟩ batchSize
    capacity flow schedule placed fun e _ => arm_allowed fun s =>
      ⟨by cases e <;> rfl, fun tells => by rw [Tells, change_holdings]; exact tells⟩
  have settled : SettledByOffset sent ledger.records :=
    ⟨fun _ => logged_message logged, fun _ => logged_sequence logged, fun p => logged_ahead logged rising (rise p)⟩
  exact ⟨settled, fun campaign limit => unmixed_settled settled (fun r member => (List.mem_filter.mp member).1) limit⟩

def sentAt (time : Option Int) (m : Message) : Message := { m with receipt := { m.receipt with sentAt := time } }

def crossed : List (Move Arming) :=
  [.change (.store (.mishaps { appends := .times 2 })), .dispatch (sentAt (some 20) (taking 0 3)),
    .dispatch (sentAt (some 10) (taking 0 5)), .dispatch (taking 1 0), .dispatch (sentAt (some 15) (taking 1 4)),
    .receive 0, .gather 0, .gather 0, .receive 1, .gather 1, .gather 1] ++
    (List.replicate 40 [.turn 1, .turn 0]).flatten

theorem partitions_settle_by_offset_crossed :
    let start := Crew.start (stand.opening [⟨1, 2, epoch⟩] []) 2 8 true
    let ledger := (start.run Faulty.settleMemory Faulty.arm twice crossed).station.store.inner
    let sent := crossed.filterMap Move.sent?
    (∀ p, OffsetsRise (sentTo crossed p)) ∧
      ledger.records.map (fun r => (r.partition, r.offset, r.sequence)) =
        [(some 1, some 0, some 1), (some 1, some 4, some 3), (some 0, some 3, some 2), (some 0, some 5, some 4)] ∧
      SettledByOffset sent ledger.records ∧ ∀ campaign limit, Unmixed sent (ledger.recordsOf campaign) limit := by
  have rising : (crossed.filterMap Move.sent?).Pairwise fun m n =>
      m.receipt.partition = n.receipt.partition → m.receipt.offset < n.receipt.offset := by decide +kernel
  have rise : ∀ p, OffsetsRise (sentTo crossed p) := by
    intro p
    refine List.pairwise_filter.mpr (rising.imp ?_)
    intro m n less here here'
    exact less ((of_decide_eq_true here).trans (of_decide_eq_true here').symm)
  exact ⟨rise, by decide +kernel, partitions_settle_by_offset [⟨1, 2, epoch⟩] twice stand [] 2 8 true crossed rise⟩

end CampaignSettlement.Settlement
