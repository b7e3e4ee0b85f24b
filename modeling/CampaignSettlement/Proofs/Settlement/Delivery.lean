import CampaignSettlement.Proofs.Settlement.Queues
import CampaignSettlement.Proofs.Settlement.Rounds

/-!
What the workers of the partitions do with the messages that are dispatched to them. Whatever the order of
moves is, the batches of a partition are cut one after another from its messages in the order in which
they were dispatched, and each is acknowledged once, after it has been settled.
-/
namespace CampaignSettlement.Settlement

open Calendar (Instant)
open Ledger (Settler Table)
open Wire (Message)

def Phase.batch? : Phase → Option (List Message)
  | idle => none
  | gathering batch | busy batch _ => some batch

namespace Worker

def batches (w : Worker) : List (List Message) := w.past.map Round.batch ++ w.phase.batch?.toList

def rounds (w : Worker) : List Round :=
  match w.phase with
  | .busy batch course => w.past ++ [⟨batch, course.asked⟩]
  | _ => w.past

def acks (w : Worker) : List (Int × Int) := w.rounds.flatMap fun r => acksIn r.asked

end Worker

def Move.sent? {ε : Type} : Move ε → Option Message
  | dispatch m => some m
  | _ => none

def sentTo {ε : Type} (schedule : List (Move ε)) (partition : Int) : List Message :=
  (schedule.filterMap Move.sent?).filter fun m => m.receipt.partition = partition

def Sized (size : Nat) (batch : List Message) : Prop := 1 ≤ batch.length ∧ batch.length ≤ size

theorem Sized.some_message {size : Nat} {batch : List Message} (h : Sized size batch) : batch ≠ [] :=
  List.ne_nil_of_length_pos h.1

def Phase.Fits (b : Backoff) (size : Nat) (partition : Int) : Phase → Prop
  | idle => True
  | gathering batch => Sized size batch
  | busy batch course => Sized size batch ∧ course.Of (round b partition batch)

structure Round.Ended (b : Backoff) (size : Nat) (partition : Int) (r : Round) (goesOn : Bool) : Prop where
  sized : Sized size r.batch
  course : (round b partition r.batch).Leads r.asked (.done goesOn)

/-- What a worker has taken and what is queued for it, beside what was sent to its partition. -/
structure Lined (b : Backoff) (size : Nat) (partition : Int) (sent : List Message) (standing : List Message × Bool)
    (w : Worker) : Prop where
  kept : standing.2 = true → w.batches.flatten ++ standing.1 = sent
  lost : standing.2 = false → w.batches.flatten <+: sent ∧ standing.1 = [] ∧ w.phase = .idle ∧
    ∃ r ∈ w.past, r.Ended b size partition false
  past : ∀ r ∈ w.past, ∃ goesOn, r.Ended b size partition goesOn
  phase : w.phase.Fits b size partition

variable {b : Backoff} {size : Nat} {partition : Int} {sent : List Message} {standing : List Message × Bool}
  {past : List Round}

theorem Lined.alive {phase : Phase} (h : Lined b size partition sent standing ⟨past, phase⟩) (busy : phase ≠ .idle) :
    standing.2 = true := by
  cases alive : standing.2 with
  | true => rfl
  | false => exact absurd (h.lost alive).2.2.1 busy

theorem Lined.in_order {w : Worker} (h : Lined b size partition sent standing w) :
    w.batches.flatten ++ standing.1 <+: sent := by
  cases alive : standing.2 with
  | true => exact h.kept alive ▸ List.prefix_rfl
  | false =>
    obtain ⟨taken, queue, -⟩ := h.lost alive
    rwa [queue, List.append_nil]

theorem lined_sent (h : Lined b size partition sent standing w) (m : Message) :
    Lined b size partition (sent ++ [m]) (if standing.2 = true then (standing.1 ++ [m], true) else standing) w := by
  cases alive : standing.2 with
  | true =>
    refine ⟨?_, ?_, h.past, h.phase⟩
    · intro _
      rw [if_pos rfl, ← h.kept alive, List.append_assoc]
    · intro dead
      cases dead
  | false =>
    obtain ⟨taken, rest⟩ := h.lost alive
    refine ⟨?_, fun _ => ⟨taken.trans (List.prefix_append _ _), rest⟩, h.past, h.phase⟩
    intro still
    · simp [alive] at still

theorem lined_taken {m : Message} {rest : List Message} {phase phase' : Phase}
    (h : Lined b size partition sent (m :: rest, true) ⟨past, phase⟩)
    (more : phase'.batch?.getD [] = phase.batch?.getD [] ++ [m]) (fits : phase'.Fits b size partition) :
    Lined b size partition sent (rest, true) ⟨past, phase'⟩ := by
  refine ⟨?_, fun dead => Bool.noConfusion dead, h.past, fits⟩
  intro _
  have flat (phase : Phase) : phase.batch?.toList.flatten = phase.batch?.getD [] := by
    cases phase <;> simp [Phase.batch?]
  have kept := h.kept rfl
  simp only [Worker.batches, List.flatten_append, flat] at kept ⊢
  simp [more, ← kept]

theorem lined_same {phase phase' : Phase} (h : Lined b size partition sent standing ⟨past, phase⟩)
    (busy : phase ≠ .idle) (same : phase'.batch? = phase.batch?) (fits : phase'.Fits b size partition) :
    Lined b size partition sent standing ⟨past, phase'⟩ := by
  have alive := h.alive busy
  refine ⟨?_, ?_, h.past, fits⟩
  · intro _
    have kept := h.kept alive
    rwa [Worker.batches, ← same] at kept
  · intro dead
    rw [alive] at dead
    cases dead

theorem lined_ended {batch : List Message} {course : Course Bool} {asked : List Exchange} {goesOn : Bool}
    (h : Lined b size partition sent standing ⟨past, .busy batch course⟩)
    (finished : (round b partition batch).Leads asked (.done goesOn)) :
    Lined b size partition sent (if goesOn then standing else ([], false)) ⟨past ++ [⟨batch, asked⟩], .idle⟩ := by
  have alive := h.alive Phase.noConfusion
  have kept := h.kept alive
  have ended : Round.Ended b size partition ⟨batch, asked⟩ goesOn := ⟨h.phase.1, finished⟩
  have same : (Worker.mk (past ++ [⟨batch, asked⟩]) .idle).batches = (Worker.mk past (.busy batch course)).batches := by
    simp [Worker.batches, Phase.batch?]
  refine ⟨?_, ?_, ?_, trivial⟩
  · intro still
    cases goesOn with
    | true => rwa [same]
    | false => cases still
  · intro dead
    cases goesOn with
    | true =>
      rw [if_pos rfl, alive] at dead
      cases dead
    | false => exact ⟨⟨_, by rwa [same]⟩, rfl, rfl, _, by simp, ended⟩
  · intro r member
    rcases List.mem_append.mp member with earlier | last
    · exact h.past r earlier
    · exact ⟨goesOn, List.mem_singleton.mp last ▸ ended⟩

variable {σ ε : Type}

structure Manned (b : Backoff) (size : Nat) (sent : Int → List Message) (c : Crew σ) : Prop where
  cut : c.station.pool.batchSize = size
  lined : ∀ p, Lined b size p (sent p) (c.station.pool.standing p) (c.worker p)

variable {sent : Int → List Message} {c : Crew σ}

theorem worker_set (c : Crew σ) (s : Station σ) (p : Int) (w : Worker) (y : Int) :
    (c.set s p w).worker y = if y = p then w else c.worker y := by
  rw [Crew.worker, Crew.set, Table.get?_put]
  split <;> rfl

theorem Manned.set (h : Manned b size sent c) {s : Station σ} {p : Int} {w : Worker}
    (same : s.pool.batchSize = c.station.pool.batchSize)
    (others : ∀ y ≠ p, s.pool.standing y = c.station.pool.standing y)
    (own : Lined b size p (sent p) (s.pool.standing p) w) : Manned b size sent (c.set s p w) := by
  refine ⟨same.trans h.cut, ?_⟩
  intro y
  rw [worker_set]
  by_cases here : y = p
  · subst here
    rw [if_pos rfl]
    exact own
  · rw [if_neg here]
    change Lined b size y (sent y) (s.pool.standing y) _
    rw [others y here]
    exact h.lined y

theorem step_standing (settler : Instant → Settler σ) (s : Station σ) (course : Course Bool) (y : Int) :
    (course.step (Station.answer settler) s).1.pool.standing y = s.pool.standing y ∧
      (course.step (Station.answer settler) s).1.pool.batchSize = s.pool.batchSize := by
  cases asks : course.rest with
  | done goesOn =>
    rw [Course.step_done _ _ asks]
    exact ⟨rfl, rfl⟩
  | ask q next =>
    rw [Course.step_ask _ _ asks]
    exact Station.answer_standing settler s q y

theorem manned_turn (settler : Instant → Settler σ) (disturb : ε → σ → σ) (h : Manned b size sent c) (p : Int) :
    Manned b size sent (c.move settler disturb b (.turn p)) := by
  have lined := h.lined p
  rcases at_work : c.worker p with ⟨past, phase⟩
  rw [at_work] at lined
  cases phase with
  | idle | gathering batch => simpa only [Crew.move, at_work] using h
  | busy batch course =>
    simp only [Crew.move, at_work]
    have ahead := Course.of_step (Station.answer settler) c.station lined.phase.2
    have quiet := step_standing settler c.station course
    generalize course.step (Station.answer settler) c.station = stepped at ahead quiet ⊢
    obtain ⟨s, course'⟩ := stepped
    rw [Course.Of] at ahead
    dsimp only at ahead quiet ⊢
    cases asks : course'.rest with
    | ask q next =>
      rw [Crew.keep_ask _ _ _ _ _ asks]
      refine h.set (quiet p).2 (fun y _ => (quiet y).1) ?_
      rw [(quiet p).1]
      exact lined_same lined Phase.noConfusion rfl ⟨lined.phase.1, ahead⟩
    | done goesOn =>
      rw [asks] at ahead
      rw [Crew.keep_done _ _ _ _ _ asks]
      have ended := lined_ended lined ahead
      cases goesOn with
      | true =>
        refine h.set (quiet p).2 (fun y _ => (quiet y).1) ?_
        change Lined b size p (sent p) (s.pool.standing p) _
        rw [(quiet p).1]
        exact ended
      | false =>
        refine h.set (quiet p).2 (?_) ?_
        · intro y other
          exact (Pool.standing_lose _ p y).trans ((if_neg other).trans (quiet y).1)
        · change Lined b size p (sent p) ((s.pool.lose p).standing p) _
          rw [Pool.standing_lose, if_pos rfl]
          exact ended

theorem manned_receive (settler : Instant → Settler σ) (disturb : ε → σ → σ) (h : Manned b size sent c) (p : Int)
    (some_room : 1 ≤ size) : Manned b size sent (c.move settler disturb b (.receive p)) := by
  have lined := h.lined p
  rcases at_work : c.worker p with ⟨past, phase⟩
  rw [at_work] at lined
  cases phase with
  | gathering batch | busy batch course => simpa only [Crew.move, at_work] using h
  | idle =>
    simp only [Crew.move, at_work]
    split
    · next m pool popped =>
      obtain ⟨rest, before, same, after⟩ := Pool.pop?_some popped
      refine h.set same (fun y other => (after y).trans (if_neg other)) ?_
      rw [before] at lined
      change Lined b size p (sent p) (pool.standing p) _
      rw [after, if_pos rfl]
      exact lined_taken lined rfl ⟨Nat.le_refl 1, some_room⟩
    · exact h

theorem manned_gather (settler : Instant → Settler σ) (disturb : ε → σ → σ) (h : Manned b size sent c) (p : Int) :
    Manned b size sent (c.move settler disturb b (.gather p)) := by
  have lined := h.lined p
  rcases at_work : c.worker p with ⟨past, phase⟩
  rw [at_work] at lined
  cases phase with
  | idle | busy batch course => simpa only [Crew.move, at_work] using h
  | gathering batch =>
    have content : Manned b size sent (c.set c.station p ⟨past, .busy batch ⟨[], round b p batch⟩⟩) :=
      h.set rfl (fun _ _ => rfl)
        (lined_same lined Phase.noConfusion rfl ⟨lined.phase, Course.of_start _⟩)
    simp only [Crew.move, at_work]
    split
    · next room =>
      rw [h.cut] at room
      split
      · next m pool popped =>
        obtain ⟨rest, before, same, after⟩ := Pool.pop?_some popped
        refine h.set same (fun y other => (after y).trans (if_neg other)) ?_
        rw [before] at lined
        change Lined b size p (sent p) (pool.standing p) _
        rw [after, if_pos rfl]
        refine lined_taken lined rfl ⟨?_, ?_⟩
        · simp
        · simpa using Nat.succ_le_of_lt room
      · exact content
    · exact content

theorem manned_dispatch (settler : Instant → Settler σ) (disturb : ε → σ → σ) (h : Manned b size sent c) (m : Message) :
    Manned b size (fun p => sent p ++ sentTo [(.dispatch m : Move ε)] p) (c.move settler disturb b (.dispatch m)) := by
  refine ⟨(Pool.batchSize_dispatch _ m).trans h.cut, ?_⟩
  intro p
  change Lined b size p _ ((c.station.pool.dispatch m).1.standing p) (c.worker p)
  rw [Pool.standing_dispatch]
  by_cases own : p = m.receipt.partition
  · have sent_here : sentTo [(.dispatch m : Move ε)] p = [m] := by simp [sentTo, Move.sent?, own]
    rw [sent_here]
    simpa only [own, true_and] using lined_sent (h.lined p) m
  · have sent_elsewhere : sentTo [(.dispatch m : Move ε)] p = [] := by simp [sentTo, Move.sent?, Ne.symm own]
    rw [sent_elsewhere, List.append_nil]
    simpa only [own, false_and, if_false] using h.lined p

theorem sentTo_nil (p : Int) : sentTo ([] : List (Move ε)) p = [] := rfl

theorem sentTo_cons (move : Move ε) (schedule : List (Move ε)) (p : Int) :
    sentTo (move :: schedule) p = sentTo [move] p ++ sentTo schedule p := by
  simp only [sentTo, ← List.filter_append, ← List.filterMap_append, List.singleton_append]

theorem sentTo_other (move : Move ε) (other : move.sent? = none) (p : Int) : sentTo [move] p = [] := by
  simp [sentTo, other]

theorem manned_move (settler : Instant → Settler σ) (disturb : ε → σ → σ) (h : Manned b size sent c)
    (some_room : 1 ≤ size) (move : Move ε) :
    Manned b size (fun p => sent p ++ sentTo [move] p) (c.move settler disturb b move) := by
  cases move with
  | dispatch m => exact manned_dispatch settler disturb h m
  | receive p =>
    simpa only [sentTo_other (.receive p) rfl, List.append_nil] using manned_receive settler disturb h p some_room
  | gather p =>
    simpa only [sentTo_other (.gather p) rfl, List.append_nil] using manned_gather settler disturb h p
  | turn p => simpa only [sentTo_other (.turn p) rfl, List.append_nil] using manned_turn settler disturb h p
  | change e =>
    have same := c.station.change_pool disturb e
    refine ⟨(congrArg Pool.batchSize same).trans h.cut, ?_⟩
    intro p
    have lined := h.lined p
    rw [← same] at lined
    rw [sentTo_other _ rfl, List.append_nil]
    exact lined

theorem manned_run (settler : Instant → Settler σ) (disturb : ε → σ → σ) (h : Manned b size sent c)
    (some_room : 1 ≤ size) (schedule : List (Move ε)) :
    Manned b size (fun p => sent p ++ sentTo schedule p) (c.run settler disturb b schedule) := by
  induction schedule generalizing sent c with
  | nil =>
    simp only [sentTo_nil, List.append_nil]
    exact h
  | cons move schedule ih =>
    have later := ih (manned_move settler disturb h some_room move)
    simp only [List.append_assoc, ← sentTo_cons] at later
    exact later

theorem manned_start (s : Station σ) (b : Backoff) (batchSize capacity : Nat) (flow : Bool) :
    Manned b (max batchSize 1) (fun _ => []) (Crew.start s batchSize capacity flow) := by
  refine ⟨rfl, fun p => ⟨fun _ => rfl, fun dead => Bool.noConfusion dead, ?_, trivial⟩⟩
  intro r member
  cases member

theorem rounds_batches (w : Worker) : w.rounds.map Round.batch <+: w.batches := by
  obtain ⟨past, phase⟩ := w
  cases phase <;> simp [Worker.rounds, Worker.batches, Phase.batch?]

variable {sent : List Message} {w : Worker}

theorem lined_sized (h : Lined b size partition sent standing w) : ∀ batch ∈ w.batches, Sized size batch := by
  intro batch member
  rcases List.mem_append.mp member with earlier | present
  · obtain ⟨r, at_past, rfl⟩ := List.mem_map.mp earlier
    obtain ⟨goesOn, ended⟩ := h.past r at_past
    exact ended.sized
  · have fits := h.phase
    cases phase : w.phase with
    | idle => simp [phase, Phase.batch?] at present
    | gathering own =>
      rw [phase] at fits present
      simp only [Phase.batch?, Option.toList_some, List.mem_singleton] at present
      exact present ▸ fits
    | busy own course =>
      rw [phase] at fits present
      simp only [Phase.batch?, Option.toList_some, List.mem_singleton] at present
      exact present ▸ fits.1

theorem lined_courses (h : Lined b size partition sent standing w) :
    ∀ r ∈ w.rounds, r.batch ≠ [] ∧ ∃ rest, (round b partition r.batch).Leads r.asked rest := by
  have ended : ∀ r ∈ w.past, r.batch ≠ [] ∧ ∃ rest, (round b partition r.batch).Leads r.asked rest := by
    intro r member
    obtain ⟨goesOn, ended⟩ := h.past r member
    exact ⟨ended.sized.some_message, _, ended.course⟩
  intro r member
  cases phase : w.phase with
  | idle | gathering batch =>
    simp only [Worker.rounds, phase] at member
    exact ended r member
  | busy batch course =>
    have fits := h.phase
    rw [phase] at fits
    simp only [Worker.rounds, phase, List.mem_append, List.mem_singleton] at member
    rcases member with earlier | rfl
    · exact ended r earlier
    · exact ⟨fits.1.some_message, _, fits.2⟩

theorem lined_rounds (h : Lined b size partition sent standing w) :
    ∀ r ∈ w.rounds, RoundLog b partition r.batch r.asked := by
  intro r member
  obtain ⟨some_message, rest, course⟩ := lined_courses h r member
  exact round_log some_message course

theorem lined_past (h : Lined b size partition sent standing w) :
    ∀ r ∈ w.past, acksIn r.asked = ackFor partition r.batch := by
  intro r member
  obtain ⟨goesOn, ended⟩ := h.past r member
  exact (round_ended ended.sized.some_message ended.course).1

def Round.HasOutcomes (b : Backoff) (partition : Int) (r : Round) : Prop :=
  ∃ xs, Processed b r.batch xs ∧ ⟨.account partition r.batch.length, ()⟩ :: xs <+: r.asked

theorem ackFor_one {batch : List Message} (some_message : batch ≠ []) : (ackFor partition batch).length = 1 := by
  obtain ⟨offset, last⟩ := lastOffset_some some_message
  simp [ackFor, last]

theorem ackFor_mem {batch : List Message} {ack : Int × Int} (member : ack ∈ ackFor partition batch) :
    ∃ m ∈ batch, m.receipt.offset = ack.2 := by
  simp only [ackFor, Option.mem_toList, Option.map_eq_some_iff] at member
  obtain ⟨offset, last, rfl⟩ := member
  exact List.mem_map.mp (List.max?_mem last)

theorem lined_past_length (h : Lined b size partition sent standing w) :
    (w.past.flatMap fun r => acksIn r.asked).length = w.past.length := by
  have one : ∀ r ∈ w.past, (acksIn r.asked).length = 1 := by
    intro r member
    obtain ⟨goesOn, ended⟩ := h.past r member
    rw [lined_past h r member]
    exact ackFor_one ended.sized.some_message
  rw [List.length_flatMap, List.map_congr_left one]
  simp

/-- An acknowledgement is made only when all messages up to its batch have outcomes. -/
theorem lined_outcomes (h : Lined b size partition sent standing w) :
    ∀ r ∈ w.rounds.take w.acks.length, r.HasOutcomes b partition := by
  have finished : ∀ r ∈ w.past, r.HasOutcomes b partition := by
    intro r member
    obtain ⟨goesOn, ended⟩ := h.past r member
    refine roundLog_processed (round_log ended.sized.some_message ended.course) ?_
    rw [lined_past h r member]
    exact List.ne_nil_of_length_pos (Nat.le_of_eq (ackFor_one ended.sized.some_message).symm)
  intro r member
  cases phase : w.phase with
  | idle | gathering batch =>
    have same : w.rounds = w.past := by simp only [Worker.rounds, phase]
    exact finished r (same ▸ List.mem_of_mem_take member)
  | busy batch course =>
    have rounds : w.rounds = w.past ++ [⟨batch, course.asked⟩] := by simp only [Worker.rounds, phase]
    have present : RoundLog b partition batch course.asked := lined_rounds h ⟨batch, course.asked⟩ (by simp [rounds])
    by_cases none : acksIn course.asked = []
    · have past : w.acks.length = w.past.length := by
        simpa [Worker.acks, rounds, none] using lined_past_length h
      rw [past, rounds, List.take_left] at member
      exact finished r member
    · rw [rounds] at member
      rcases List.mem_append.mp (List.mem_of_mem_take member) with earlier | own
      · exact finished r earlier
      · exact List.mem_singleton.mp own ▸ roundLog_processed present none

theorem lined_acks (h : Lined b size partition sent standing w) :
    w.past.flatMap (fun r => ackFor partition r.batch) <+: w.acks ∧
      w.acks <+: w.batches.flatMap (ackFor partition) := by
  have finished : w.past.flatMap (fun r => acksIn r.asked) = w.past.flatMap (fun r => ackFor partition r.batch) :=
    List.flatMap_congr (lined_past h)
  cases phase : w.phase with
  | idle | gathering batch =>
    have acks : w.acks = w.past.flatMap fun r => ackFor partition r.batch := by
      simpa only [Worker.acks, Worker.rounds, phase] using finished
    rw [acks, Worker.batches, List.flatMap_append, List.flatMap_map]
    exact ⟨List.prefix_rfl, List.prefix_append _ _⟩
  | busy batch course =>
    have present : RoundLog b partition batch course.asked :=
      lined_rounds h ⟨batch, course.asked⟩ (by simp [Worker.rounds, phase])
    have acks : w.acks = w.past.flatMap (fun r => ackFor partition r.batch) ++ acksIn course.asked := by
      simp [Worker.acks, Worker.rounds, phase, finished]
    rw [acks, Worker.batches, List.flatMap_append, List.flatMap_map, List.prefix_append_right_inj]
    refine ⟨List.prefix_append _ _, ?_⟩
    rcases roundLog_acks present with none | one
    · rw [none]
      exact List.nil_prefix
    · simp [one, phase, Phase.batch?]

theorem acks_ascending (taken : w.batches.flatten <+: sent) (acks : w.acks <+: w.batches.flatMap (ackFor partition))
    (order : sent.Pairwise fun m n => m.receipt.offset < n.receipt.offset) :
    w.acks.Pairwise fun first second => first.2 < second.2 := by
  obtain ⟨-, across⟩ := List.pairwise_flatten.mp (order.sublist taken.sublist)
  refine List.Pairwise.sublist acks.sublist (List.pairwise_flatMap.mpr ⟨?_, ?_⟩)
  · intro batch _
    cases last : lastOffset batch <;> simp [ackFor, last]
  · refine across.imp ?_
    intro batch later earlier first at_first second at_second
    obtain ⟨m, in_first, same⟩ := ackFor_mem at_first
    obtain ⟨n, in_second, same'⟩ := ackFor_mem at_second
    rw [← same, ← same']
    exact earlier m in_first n in_second

/-- What is true of a partition at any time: of the messages `sent` that were dispatched to it, of its lane
and of its worker. Only an acknowledgement can end a worker and lose what is queued for it. -/
structure Delivered (b : Backoff) (size : Nat) (partition : Int) (sent : List Message) (l : Lane) (w : Worker) :
    Prop where
  in_order : w.batches.flatten ++ l.queue <+: sent
  complete : l.alive = true → w.batches.flatten ++ l.queue = sent
  broken : l.alive = false → ∃ r ∈ w.past, ∃ offset, ⟨.ack partition offset, .broken⟩ ∈ r.asked
  sized : ∀ batch ∈ w.batches, Sized size batch
  begun : w.rounds.map Round.batch <+: w.batches
  logs : ∀ r ∈ w.rounds, RoundLog b partition r.batch r.asked
  /-- The acknowledgements of the rounds that have ended, and at most that of the present one. -/
  acked : w.past.flatMap (fun r => ackFor partition r.batch) <+: w.acks ∧
    w.acks <+: w.batches.flatMap (ackFor partition)
  outcomes : ∀ r ∈ w.rounds.take w.acks.length, r.HasOutcomes b partition
  ascending : (sent.Pairwise fun m n => m.receipt.offset < n.receipt.offset) →
    w.acks.Pairwise fun first second => first.2 < second.2
  drained : l.alive = true → l.queue = [] → w.phase = .idle →
    (w.past.map Round.batch).flatten = sent ∧ w.acks = w.past.flatMap fun r => ackFor partition r.batch

theorem lined_delivered {l : Lane} (h : Lined b size partition sent (l.queue, l.alive) w) :
    Delivered b size partition sent l w := by
  have in_order : w.batches.flatten ++ l.queue <+: sent := h.in_order
  have acked := lined_acks h
  refine ⟨in_order, h.kept, ?_, lined_sized h, rounds_batches w, lined_rounds h, acked, lined_outcomes h, ?_, ?_⟩
  · intro dead
    obtain ⟨-, -, -, r, member, ended⟩ := h.lost dead
    exact ⟨r, member, (round_ended ended.sized.some_message ended.course).2 rfl⟩
  · intro order
    exact acks_ascending ((List.prefix_append _ _).trans in_order) acked.2 order
  · intro alive empty idle
    have kept := h.kept alive
    have batches : w.batches = w.past.map Round.batch := by simp [Worker.batches, idle, Phase.batch?]
    have rounds : w.rounds = w.past := by simp only [Worker.rounds, idle]
    rw [empty, List.append_nil, batches] at kept
    refine ⟨kept, ?_⟩
    rw [Worker.acks, rounds]
    exact List.flatMap_congr (lined_past h)

end CampaignSettlement.Settlement
