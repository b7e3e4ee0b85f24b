import CampaignSettlement.Proofs.Settlement.Delivery
import CampaignSettlement.Proofs.Settlement.Selling
import CampaignSettlement.Settlement.Intake

/-!
Flow control of the partitions. What is counted in at a lane and not counted out is queued, in the hand of its worker,
or on its way. The source is paused when as many are counted as a lane may have, and resumed when no more than half are
left; what happens at one partition is not noticed at another.
-/
namespace CampaignSettlement.Settlement

open Calendar (Instant)
open Ledger (Arming Faulty Settler)
open Wire (Message)

def alternating (n : Nat) : List Signal := (List.range n).map fun i => if i % 2 = 0 then .pause else .resume

theorem alternating_succ (n : Nat) :
    alternating (n + 1) = alternating n ++ [if n % 2 = 0 then .pause else .resume] := by
  simp [alternating, List.range_succ]

/-- How a lane comes to be paused or not, with what is said of it. -/
inductive Signal.Follows : Bool → Option Signal → Bool → Prop
  | still (paused : Bool) : Follows paused none paused
  | pause : Follows false (some .pause) true
  | resume : Follows true (some .resume) false

namespace Lane

variable {capacity : Nat} (l : Lane)

theorem countIn_queued (capacity : Nat) : (l.countIn capacity).1.queued = l.queued + 1 := by
  unfold countIn
  dsimp only
  split <;> rfl

theorem countOut_queued (capacity n : Nat) : (l.countOut capacity n).1.queued = l.queued - n := by
  unfold countOut
  dsimp only
  split <;> rfl

theorem countIn_follows (capacity : Nat) :
    Signal.Follows l.paused (l.countIn capacity).2 (l.countIn capacity).1.paused := by
  unfold countIn
  dsimp only
  split
  · next full =>
    have unpaused : l.paused = false := by simpa using (Bool.and_eq_true_iff.mp full).1
    rw [unpaused]
    exact .pause
  · exact .still _

theorem countOut_follows (capacity n : Nat) :
    Signal.Follows l.paused (l.countOut capacity n).2 (l.countOut capacity n).1.paused := by
  unfold countOut
  dsimp only
  split
  · next drained =>
    rw [(Bool.and_eq_true_iff.mp drained).1]
    exact .resume
  · exact .still _

/-- There is room while the lane is open, and more than half is taken while it is paused. -/
structure Level (capacity : Nat) (l : Lane) : Prop where
  below : l.paused = false → l.queued < capacity
  above : l.paused = true → capacity / 2 < l.queued

variable {l}

theorem level_countIn (h : l.Level capacity) : (l.countIn capacity).1.Level capacity := by
  unfold countIn
  dsimp only
  split
  · next full =>
    have full : capacity ≤ l.queued + 1 := by simpa using (Bool.and_eq_true_iff.mp full).2
    refine ⟨Bool.noConfusion, ?_⟩
    intro _
    dsimp only
    omega
  · next room =>
    refine ⟨?_, ?_⟩
    · intro unpaused
      simpa [show l.paused = false from unpaused] using room
    · intro paused
      exact Nat.lt_succ_of_lt (h.above paused)

theorem level_countOut (h : l.Level capacity) (some_room : 1 ≤ capacity) (n : Nat) :
    (l.countOut capacity n).1.Level capacity := by
  unfold countOut
  dsimp only
  split
  · next drained =>
    have drained : l.queued - n ≤ capacity / 2 := by simpa using (Bool.and_eq_true_iff.mp drained).2
    refine ⟨?_, Bool.noConfusion⟩
    intro _
    dsimp only
    omega
  · next still =>
    refine ⟨?_, ?_⟩
    · intro unpaused
      exact Nat.lt_of_le_of_lt (Nat.sub_le _ _) (h.below unpaused)
    · intro paused
      have more : ¬ l.queued - n ≤ capacity / 2 := by
        intro drained
        exact still (by rw [show l.paused = true from paused]; exact decide_eq_true drained)
      exact Nat.lt_of_not_le more

end Lane

def said (flow : Bool) (s : Option Signal) : List Signal := if flow then s.toList else []

def saidOf (partition : Int) (signals : List (Signal × Int)) : List Signal :=
  (signals.filter fun s => s.2 = partition).map Prod.fst

theorem saidOf_append (partition : Int) (xs ys : List (Signal × Int)) :
    saidOf partition (xs ++ ys) = saidOf partition xs ++ saidOf partition ys := by
  simp [saidOf]

theorem saidOf_signals (pool : Pool) (x : Int) (s : Option Signal) (partition : Int) :
    saidOf partition (pool.signals x s) = if partition = x then said pool.flow s else [] := by
  unfold Pool.signals said saidOf
  by_cases own : partition = x
  · subst own
    cases pool.flow <;> cases s <;> simp
  · cases pool.flow <;> cases s <;> simp [own, Ne.symm own]

/-- All that concerns the flow at a partition. -/
structure Bay where
  lane : Lane
  hand : Nat
  /-- Messages that are counted in and not yet sent. -/
  held : Nat
  told : List Signal

namespace Bay

/-- What a step does at a bay, where `ins` messages are counted in by it and `outs` counted out. -/
inductive Goes (capacity : Nat) (flow : Bool) : Bay → (ins outs : Nat) → Bay → Prop
  | still (x : Bay) : Goes capacity flow x 0 0 x
  | entered (x : Bay) :
      Goes capacity flow x 1 0 ⟨(x.lane.countIn capacity).1, x.hand, x.held + 1,
        x.told ++ said flow (x.lane.countIn capacity).2⟩
  | sent {x : Bay} {n : Nat} (held : x.held = n + 1) (m : Message) :
      Goes capacity flow x 0 0 ⟨{ x.lane with queue := x.lane.queue ++ [m] }, x.hand, n, x.told⟩
  | refused {x : Bay} {n : Nat} (held : x.held = n + 1) :
      Goes capacity flow x 0 1 ⟨(x.lane.countOut capacity 1).1, x.hand, n,
        x.told ++ said flow (x.lane.countOut capacity 1).2⟩
  | taken {x : Bay} {m : Message} {rest : List Message} (queue : x.lane.queue = m :: rest) :
      Goes capacity flow x 0 0 ⟨{ x.lane with queue := rest }, x.hand + 1, x.held, x.told⟩
  | accounted (x : Bay) :
      Goes capacity flow x 0 x.hand ⟨(x.lane.countOut capacity x.hand).1, 0, x.held,
        x.told ++ said flow (x.lane.countOut capacity x.hand).2⟩
  | lost (x : Bay) : Goes capacity flow x 0 0 ⟨{ x.lane with alive := false, queue := [] }, 0, x.held, x.told⟩

/-- The calls alternate, and the last of them tells whether the lane is paused. -/
structure Told (flow paused : Bool) (told : List Signal) : Prop where
  alternates : flow = true → told = alternating told.length
  last : flow = true → (paused = true ↔ told.length % 2 = 1)
  untold : flow = false → told = []

theorem told_follows {flow paused paused' : Bool} {told : List Signal} {s : Option Signal} (h : Told flow paused told)
    (follows : Signal.Follows paused s paused') : Told flow paused' (told ++ said flow s) := by
  cases flow with
  | false => exact ⟨nofun, nofun, fun _ => by rw [h.untold rfl]; rfl⟩
  | true =>
    have length (signal : Signal) : (told ++ [signal]).length = told.length + 1 := List.length_append
    have parity := h.last rfl
    cases follows with
    | still =>
      rw [said, if_pos rfl, Option.toList_none, List.append_nil]
      exact h
    | pause =>
      have even : told.length % 2 = 0 := by simpa using parity
      refine ⟨?_, ?_, nofun⟩
      · intro _
        change told ++ [.pause] = alternating (told ++ [Signal.pause]).length
        rw [length, alternating_succ, ← h.alternates rfl, if_pos even]
      · intro _
        change true = true ↔ (told ++ [Signal.pause]).length % 2 = 1
        rw [length]
        simp only [true_iff]
        omega
    | resume =>
      have odd : told.length % 2 = 1 := by simpa using parity
      refine ⟨?_, ?_, nofun⟩
      · intro _
        change told ++ [.resume] = alternating (told ++ [Signal.resume]).length
        rw [length, alternating_succ, ← h.alternates rfl, if_neg (by omega)]
      · intro _
        change false = true ↔ (told ++ [Signal.resume]).length % 2 = 1
        rw [length]
        simp only [Bool.false_eq_true, false_iff]
        omega

/-- A bay at which `ins` messages have been counted in and `outs` counted out. -/
structure Regulated (capacity : Nat) (flow : Bool) (ins outs : Nat) (x : Bay) : Prop where
  counted : x.lane.queued + outs = ins
  covers : x.lane.queue.length + x.hand + x.held ≤ x.lane.queued
  alive : x.lane.alive = true → x.lane.queued = x.lane.queue.length + x.hand + x.held
  level : x.lane.Level capacity
  told : Told flow x.lane.paused x.told

variable {capacity : Nat} {flow : Bool} {ins outs i o : Nat} {x y : Bay}

theorem goes_covered (goes : Goes capacity flow x i o y) (h : x.Regulated capacity flow ins outs) :
    o ≤ x.lane.queued := by
  have covers := h.covers
  cases goes with
  | refused held => omega
  | accounted => omega
  | _ => exact Nat.zero_le _

theorem regulated_moved (h : x.Regulated capacity flow ins outs) {queue : List Message} {hand held : Nat}
    (same : queue.length + hand + held = x.lane.queue.length + x.hand + x.held) :
    Regulated capacity flow ins outs ⟨{ x.lane with queue }, hand, held, x.told⟩ := by
  refine ⟨h.counted, ?_, ?_, ⟨h.level.below, h.level.above⟩, h.told⟩
  · dsimp only
    rw [same]
    exact h.covers
  · intro alive
    exact (h.alive alive).trans same.symm

theorem regulated_countOut (h : x.Regulated capacity flow ins outs) (some_room : 1 ≤ capacity) {n hand held : Nat}
    (less : hand + held + n = x.hand + x.held) :
    Regulated capacity flow ins (outs + n) ⟨(x.lane.countOut capacity n).1, hand, held,
      x.told ++ said flow (x.lane.countOut capacity n).2⟩ := by
  obtain ⟨counted, covers, live, level, told⟩ := h
  have queued := x.lane.countOut_queued capacity n
  have queue := x.lane.countOut_queue capacity n
  refine ⟨?_, ?_, ?_, Lane.level_countOut level some_room n, told_follows told (x.lane.countOut_follows capacity n)⟩
  · rw [queued]
    omega
  · rw [queued, queue]
    dsimp only
    omega
  · rw [queued, queue, Lane.countOut_alive]
    intro alive
    have := live alive
    dsimp only
    omega

theorem goes_regulated (goes : Goes capacity flow x i o y) (some_room : 1 ≤ capacity)
    (h : x.Regulated capacity flow ins outs) : y.Regulated capacity flow (ins + i) (outs + o) := by
  cases goes with
  | still => exact h
  | entered =>
    obtain ⟨counted, covers, live, level, told⟩ := h
    have queued := x.lane.countIn_queued capacity
    have queue := x.lane.countIn_queue capacity
    refine ⟨?_, ?_, ?_, Lane.level_countIn level, told_follows told (x.lane.countIn_follows capacity)⟩
    · rw [queued]
      omega
    · rw [queued, queue]
      exact Nat.succ_le_succ covers
    · rw [queued, queue, Lane.countIn_alive]
      exact fun alive => congrArg (· + 1) (live alive)
  | sent held m =>
    refine regulated_moved h ?_
    rw [List.length_append, List.length_singleton]
    omega
  | refused held => exact regulated_countOut h some_room (by omega)
  | taken queue =>
    refine regulated_moved h ?_
    rw [queue, List.length_cons]
    omega
  | accounted => exact regulated_countOut h some_room (by omega)
  | lost =>
    have covers := h.covers
    refine ⟨h.counted, ?_, Bool.noConfusion, ⟨h.level.below, h.level.above⟩, h.told⟩
    rw [List.length_nil]
    dsimp only
    omega

/-- A source that heeds the pause never overfills a lane. -/
theorem goes_bounded (goes : Goes capacity flow x i o y) (h : x.Regulated capacity flow ins outs)
    (heeds : i = 1 → x.lane.paused = false) (bounded : x.lane.queued ≤ capacity) : y.lane.queued ≤ capacity := by
  cases goes with
  | entered =>
    rw [Lane.countIn_queued]
    exact h.level.below (heeds rfl)
  | refused | accounted =>
    rw [Lane.countOut_queued]
    exact Nat.le_trans (Nat.sub_le _ _) bounded
  | _ => exact bounded

end Bay

def accounting (partition : Int) (n : Nat) : Watch Bool where
  allows done q := if done then ∀ x k, q ≠ .account x k else q = .account partition n
  after _ _ _ := true

section Rounds

variable (b : Backoff) (partition : Int) (batch : List Message)

theorem acknowledge_accounts (n : Nat) :
    (acknowledge partition batch).Keeps (accounting partition n) (fun done _ => done = true) true := by
  unfold acknowledge
  split
  · rfl
  · next offset _ =>
    refine ⟨fun _ _ => Ask.noConfusion, ?_⟩
    intro answer
    match answer with
    | .done | .broken => rfl
    | .failed f => exact ⟨fun _ _ => Ask.noConfusion, fun _ => rfl⟩

theorem round_accounts :
    (round b partition batch).Keeps (accounting partition batch.length) (fun done _ => done = true) false := by
  have refines : Desk.watch.Refines (accounting partition batch.length) fun _ done => done = true := by
    rintro v _ q rfl ⟨-, own⟩
    refine ⟨?_, fun _ => rfl⟩
    rintro x k rfl
    exact own trivial
  refine ⟨rfl, fun _ => ?_⟩
  change ((processBatch b batch).bind fun _ => acknowledge partition batch).Keeps _ _ true
  refine Program.keeps_seq (Program.keeps_refines refines rfl (processBatch_keeps b batch)) ?_
  rintro _ report ⟨_, rfl, -⟩
  exact acknowledge_accounts partition batch batch.length

theorem accounting_track (n : Nat) (xs : List Exchange) :
    (accounting partition n).track false xs = !xs.isEmpty := by
  have after (xs : List Exchange) : (accounting partition n).track true xs = true := by
    induction xs with
    | nil => rfl
    | cons x xs ih => exact ih
  cases xs with
  | nil => rfl
  | cons x xs => exact after xs

variable {b partition batch}

theorem course_accounts {course : Course Bool} (own : course.Of (round b partition batch)) :
    course.rest.Keeps (accounting partition batch.length) (fun done _ => done = true) (!course.asked.isEmpty) := by
  rw [← accounting_track partition batch.length]
  exact Program.keeps_leads (round_accounts b partition batch) own

theorem bind_done {α β : Type} {p : Program α} {f : α → Program β} {x : β} (h : p.bind f = .done x) :
    ∃ a, p = .done a ∧ f a = .done x := by
  cases p with
  | done a => exact ⟨a, rfl, h⟩
  | ask q next => cases h

theorem processBatch_asks (report : Report) : processBatch b batch ≠ .done report := by
  rw [processBatch_eq]
  intro h
  obtain ⟨slots, -, h⟩ := bind_done h
  obtain ⟨report, -, h⟩ := bind_done h
  obtain ⟨_, closed, -⟩ := bind_done h
  unfold closing at closed
  obtain ⟨_, -, asks⟩ := bind_done closed
  cases asks

end Rounds

def Phase.hand : Phase → Nat
  | idle => 0
  | gathering batch => batch.length
  | busy batch course => if course.asked.isEmpty then batch.length else 0

def Ask.accounts (p : Int) : Ask → Nat
  | account x n => if x = p then n else 0
  | _ => 0

def Phase.accounts (p : Int) : Phase → Nat
  | busy _ course =>
    match course.rest with
    | .ask q _ => q.accounts p
    | .done _ => 0
  | _ => 0

theorem ask_accounts_none {q : Ask} (other : ∀ x k, q ≠ .account x k) (p : Int) : q.accounts p = 0 := by
  cases q with
  | account x k => exact absurd rfl (other x k)
  | _ => rfl

namespace Intake

variable {σ ε : Type} {b : Backoff} {capacity : Nat} {flow : Bool}

def heldAt (held : Option Message) (p : Int) : Nat := held.toList.countP fun m => m.receipt.partition = p

def bay (i : Intake σ) (p : Int) : Bay :=
  ⟨i.crew.station.pool.lane p, (i.crew.worker p).phase.hand, heldAt i.held p, saidOf p i.crew.station.signals⟩

/-- Capacity and flow control are as they were set, and every course is one of the round that its worker is in. -/
structure Ready (b : Backoff) (capacity : Nat) (flow : Bool) (i : Intake σ) : Prop where
  capacity : i.crew.station.pool.capacity = capacity
  flow : i.crew.station.pool.flow = flow
  busy : ∀ p batch course, (i.crew.worker p).phase = .busy batch course → course.Of (round b p batch)

/-- What a move on the partition `q` comes to, which counts in `ins` messages and out `outs` messages. -/
structure Comes (b : Backoff) (capacity : Nat) (flow : Bool) (q : Int) (ins outs : Nat) (i i' : Intake σ) : Prop where
  ready : i'.Ready b capacity flow
  here : (i.bay q).Goes capacity flow ins outs (i'.bay q)
  elsewhere : ∀ p, p ≠ q → i'.bay p = i.bay p

theorem comes_still {i : Intake σ} (h : i.Ready b capacity flow) (q : Int) : Comes b capacity flow q 0 0 i i :=
  ⟨h, .still _, fun _ _ => rfl⟩

theorem bay_set (i : Intake σ) (s : Station σ) (q : Int) (w : Worker) (p : Int) :
    ({ i with crew := i.crew.set s q w } : Intake σ).bay p =
      ⟨s.pool.lane p, if p = q then w.phase.hand else (i.bay p).hand, (i.bay p).held, saidOf p s.signals⟩ := by
  rw [bay, worker_set]
  split <;> rfl

theorem comes_set {i : Intake σ} (h : i.Ready b capacity flow) {q : Int} {s : Station σ} {w : Worker} {ins outs : Nat}
    (same_capacity : s.pool.capacity = i.crew.station.pool.capacity)
    (same_flow : s.pool.flow = i.crew.station.pool.flow)
    (lanes : ∀ p ≠ q, s.pool.lane p = i.crew.station.pool.lane p)
    (told : ∀ p ≠ q, saidOf p s.signals = saidOf p i.crew.station.signals)
    (busy : ∀ batch course, w.phase = .busy batch course → course.Of (round b q batch))
    (here : (i.bay q).Goes capacity flow ins outs
      ⟨s.pool.lane q, w.phase.hand, (i.bay q).held, saidOf q s.signals⟩) :
    Comes b capacity flow q ins outs i { i with crew := i.crew.set s q w } := by
  refine ⟨⟨same_capacity.trans h.capacity, same_flow.trans h.flow, ?_⟩, ?_, ?_⟩
  · intro p batch course
    rw [worker_set]
    split
    · next own =>
      rw [own]
      exact busy batch course
    · exact h.busy p batch course
  · rw [bay_set, if_pos rfl]
    exact here
  · intro p other
    rw [bay_set, if_neg other, lanes p other, told p other]
    rfl

theorem comes_taken {i : Intake σ} (h : i.Ready b capacity flow) {q : Int} {m : Message} {pool : Pool}
    (popped : i.crew.station.pool.pop? q = some (m, pool)) {w : Worker} {batch : List Message}
    (gathers : w.phase = .gathering batch) (one_more : batch.length = (i.bay q).hand + 1) :
    Comes b capacity flow q 0 0 i { i with crew := i.crew.set { i.crew.station with pool } q w } := by
  obtain ⟨rest, queue, rfl⟩ := Pool.pop?_lane popped
  refine comes_set h rfl rfl ?_ (fun _ _ => rfl) ?_ ?_
  · exact fun p other => (Pool.lane_setLane _ _ _ _).trans (if_neg other)
  · intro batch' course busy
    rw [gathers] at busy
    cases busy
  · rw [gathers, Pool.lane_setLane, if_pos rfl]
    change Bay.Goes _ _ _ _ _ ⟨_, batch.length, _, _⟩
    rw [one_more]
    exact .taken queue

variable (settler : Instant → Settler σ) (disturb : ε → σ → σ)

theorem comes_receive {i : Intake σ} (h : i.Ready b capacity flow) (q : Int) :
    Comes b capacity flow q 0 0 i (i.move settler disturb b (.receive q)) := by
  simp only [move, Crew.move]
  rcases at_work : i.crew.worker q with ⟨past, phase⟩
  cases phase with
  | gathering batch | busy batch course => exact comes_still h q
  | idle =>
    dsimp only
    split
    · next m pool popped =>
      refine comes_taken h popped rfl ?_
      rw [bay, at_work]
      rfl
    · exact comes_still h q

theorem comes_gather {i : Intake σ} (h : i.Ready b capacity flow) (q : Int) :
    Comes b capacity flow q 0 0 i (i.move settler disturb b (.gather q)) := by
  simp only [move, Crew.move]
  rcases at_work : i.crew.worker q with ⟨past, phase⟩
  cases phase with
  | idle | busy batch course => exact comes_still h q
  | gathering batch =>
    have content : Comes b capacity flow q 0 0 i
        { i with crew := i.crew.set i.crew.station q ⟨past, .busy batch ⟨[], round b q batch⟩⟩ } := by
      refine comes_set h rfl rfl (fun _ _ => rfl) (fun _ _ => rfl) ?_ ?_
      · rintro _ _ ⟨⟩
        exact Course.of_start _
      · have same : (i.bay q).hand = batch.length := by rw [bay, at_work]; rfl
        change Bay.Goes _ _ _ _ _ ⟨_, batch.length, _, _⟩
        rw [← same]
        exact .still _
    dsimp only
    split
    · split
      · next m pool popped =>
        refine comes_taken h popped rfl ?_
        rw [bay, at_work, List.length_append]
        rfl
      · exact content
    · exact content

theorem comes_kept {i : Intake σ} (h : i.Ready b capacity flow) {q : Int} {past : List Round} {batch : List Message}
    {course course' : Course Bool} (at_work : i.crew.worker q = ⟨past, .busy batch course⟩)
    (begun : course.asked.isEmpty = false) (begun' : course'.asked.isEmpty = false)
    (own : course'.Of (round b q batch)) {s : Station σ} (pool : s.pool = i.crew.station.pool)
    (signals : s.signals = i.crew.station.signals) :
    Comes b capacity flow q 0 0 i { i with crew := i.crew.keep s q past batch course' } := by
  have none : (i.bay q).hand = 0 := by
    rw [bay, at_work]
    exact if_neg (by simp [begun])
  have still : (⟨s.pool.lane q, 0, (i.bay q).held, saidOf q s.signals⟩ : Bay) = i.bay q := by
    rw [pool, signals, ← none]
    rfl
  cases asks : course'.rest with
  | ask a next =>
    rw [Crew.keep_ask _ _ _ _ _ asks]
    refine comes_set h (by rw [pool]) (by rw [pool]) (fun _ _ => by rw [pool]) (fun _ _ => by rw [signals]) ?_ ?_
    · rintro _ _ ⟨⟩
      exact own
    · change Bay.Goes _ _ _ _ _ ⟨_, if course'.asked.isEmpty then batch.length else 0, _, _⟩
      rw [begun', if_neg Bool.false_ne_true, still]
      exact .still _
  | done goesOn =>
    rw [Crew.keep_done _ _ _ _ _ asks]
    cases goesOn with
    | true =>
      refine comes_set h (by rw [pool]; rfl) (by rw [pool]; rfl) (fun _ _ => by rw [pool]; rfl)
        (fun _ _ => congrArg _ signals) nofun ?_
      change Bay.Goes _ _ _ _ _ ⟨s.pool.lane q, 0, _, saidOf q s.signals⟩
      rw [still]
      exact .still _
    | false =>
      have lane (p : Int) : (s.pool.lose q).lane p = if p = q then { s.pool.lane q with alive := false, queue := [] }
          else s.pool.lane p := Pool.lane_setLane ..
      refine comes_set h (by rw [pool]; rfl) (by rw [pool]; rfl) ?_ (fun _ _ => congrArg _ signals) nofun ?_
      · intro p other
        refine (lane p).trans ?_
        rw [if_neg other, pool]
      · change Bay.Goes _ _ _ _ _ ⟨(s.pool.lose q).lane q, 0, _, saidOf q s.signals⟩
        rw [lane, if_pos rfl, pool, signals]
        exact .lost _

theorem answer_unaccounted {s : Station σ} {q : Ask} (other : ∀ x k, q ≠ .account x k) :
    (s.answer settler q).1.pool = s.pool ∧ (s.answer settler q).1.signals = s.signals := by
  cases q with
  | account x k => exact absurd rfl (other x k)
  | ack x offset =>
    simp only [Station.answer, Station.ack]
    split <;> exact ⟨rfl, rfl⟩
  | _ => exact ⟨rfl, rfl⟩

def countedIn (p : Int) (i : Intake σ) : Move ε → Nat
  | .enter m => if i.held.isNone ∧ m.receipt.partition = p then 1 else 0
  | _ => 0

def countedOut (p : Int) (i : Intake σ) : Move ε → Nat
  | .deliver =>
    match i.held with
    | some m => if m.receipt.partition = p ∧ ¬ (i.crew.station.pool.lane p).alive then 1 else 0
    | none => 0
  | .turn q => (i.crew.worker q).phase.accounts p
  | _ => 0

theorem comes_accounted {i : Intake σ} (h : i.Ready b capacity flow) {q : Int} {past : List Round}
    {batch : List Message} {course course' : Course Bool} (at_work : i.crew.worker q = ⟨past, .busy batch course⟩)
    (fresh : course.asked.isEmpty = true) (begun' : course'.asked.isEmpty = false)
    (own : course'.Of (round b q batch)) :
    let s := (i.crew.station.answer settler (.account q batch.length)).1
    Comes b capacity flow q 0 batch.length i { i with crew := i.crew.set s q ⟨past, .busy batch course'⟩ } := by
  intro s
  have hand : (i.bay q).hand = batch.length := by
    rw [bay, at_work]
    exact if_pos fresh
  have lane (p : Int) : s.pool.lane p = if p = q then ((i.bay q).lane.countOut capacity batch.length).1
      else i.crew.station.pool.lane p := by
    rw [← h.capacity]
    exact Pool.lane_setLane ..
  have told (p : Int) : saidOf p s.signals = saidOf p i.crew.station.signals ++
      if p = q then said flow ((i.bay q).lane.countOut capacity batch.length).2 else [] := by
    rw [← h.capacity, ← h.flow, ← saidOf_signals]
    exact saidOf_append ..
  refine comes_set h rfl rfl ?_ ?_ ?_ ?_
  · exact fun p other => (lane p).trans (if_neg other)
  · intro p other
    rw [told, if_neg other, List.append_nil]
  · rintro _ _ ⟨⟩
    exact own
  · change Bay.Goes _ _ _ _ _ ⟨_, if course'.asked.isEmpty then batch.length else 0, _, _⟩
    rw [begun', if_neg Bool.false_ne_true, lane, told, if_pos rfl, if_pos rfl, ← hand]
    exact .accounted _

theorem comes_turn {i : Intake σ} (h : i.Ready b capacity flow) (q : Int) :
    ∃ outs, (∀ p, (i.crew.worker q).phase.accounts p = if p = q then outs else 0) ∧
      Comes b capacity flow q 0 outs i (i.move settler disturb b (.turn q)) := by
  simp only [move, Crew.move]
  rcases at_work : i.crew.worker q with ⟨past, phase⟩
  cases phase with
  | idle | gathering batch => exact ⟨0, fun p => (ite_self 0).symm, comes_still h q⟩
  | busy batch course =>
    dsimp only
    have own := h.busy q batch course (by rw [at_work])
    have accounts := course_accounts own
    have ahead := Course.of_step (Station.answer settler) i.crew.station own
    cases asks : course.rest with
    | done goesOn =>
      rw [asks] at accounts
      have begun : course.asked.isEmpty = false := by simpa using accounts
      rw [Course.step_done _ _ asks]
      refine ⟨0, ?_, comes_kept h at_work begun begun own rfl rfl⟩
      simp [Phase.accounts, asks]
    | ask a next =>
      rw [Course.step_ask _ _ asks] at ahead ⊢
      rw [asks] at accounts
      cases begun : course.asked.isEmpty with
      | false =>
        rw [begun] at accounts
        have other : ∀ x k, a ≠ .account x k := accounts.1
        obtain ⟨pool, signals⟩ := answer_unaccounted settler (s := i.crew.station) other
        refine ⟨0, ?_, comes_kept h at_work begun (by simp) ahead pool signals⟩
        simp [Phase.accounts, asks, ask_accounts_none other]
      | true =>
        rw [begun] at accounts
        obtain rfl : a = .account q batch.length := accounts.1
        have first : course = ⟨[], round b q batch⟩ := by
          obtain ⟨asked, rest⟩ := course
          obtain rfl : asked = [] := List.isEmpty_iff.mp begun
          cases own
          rfl
        obtain rfl := first
        obtain rfl : next = fun _ => (processBatch b batch).bind fun _ => acknowledge q batch := by
          cases asks
          rfl
        refine ⟨batch.length, ?_, ?_⟩
        · intro p
          rw [Phase.accounts, asks]
          exact if_congr eq_comm rfl rfl
        · cases later : (processBatch b batch).bind fun _ => acknowledge q batch with
          | done goesOn =>
            obtain ⟨report, none, -⟩ := bind_done later
            exact absurd none (processBatch_asks report)
          | ask a' next' =>
            rw [later] at ahead
            rw [Crew.keep_ask _ _ _ _ _ rfl]
            exact comes_accounted settler h at_work rfl (by simp) ahead

theorem comes_lose {i : Intake σ} (h : i.Ready b capacity flow) (q : Int) :
    Comes b capacity flow q 0 0 i (i.move settler disturb b (.lose q)) := by
  have lane (p : Int) : (i.crew.station.pool.lose q).lane p =
      if p = q then { i.crew.station.pool.lane q with alive := false, queue := [] }
      else i.crew.station.pool.lane p := Pool.lane_setLane ..
  refine comes_set h rfl rfl ?_ (fun _ _ => rfl) nofun ?_
  · exact fun p other => (lane p).trans (if_neg other)
  · change Bay.Goes _ _ _ _ _ ⟨(i.crew.station.pool.lose q).lane q, 0, _, _⟩
    rw [lane, if_pos rfl]
    exact .lost _

theorem heldAt_some (m : Message) (p : Int) : heldAt (some m) p = if p = m.receipt.partition then 1 else 0 := by
  by_cases own : p = m.receipt.partition
  · simp [heldAt, own]
  · simp [heldAt, own, Ne.symm own]

theorem comes_source {crew : Crew σ} {held held' : Option Message} (h : Ready b capacity flow ⟨crew, held⟩) {q : Int}
    {s : Station σ} {ins outs : Nat} (same_capacity : s.pool.capacity = crew.station.pool.capacity)
    (same_flow : s.pool.flow = crew.station.pool.flow)
    (lanes : ∀ p ≠ q, s.pool.lane p = crew.station.pool.lane p)
    (told : ∀ p ≠ q, saidOf p s.signals = saidOf p crew.station.signals)
    (others : ∀ p ≠ q, heldAt held' p = heldAt held p)
    (here : Bay.Goes capacity flow (bay ⟨crew, held⟩ q) ins outs
      ⟨s.pool.lane q, (crew.worker q).phase.hand, heldAt held' q, saidOf q s.signals⟩) :
    Comes b capacity flow q ins outs ⟨crew, held⟩ ⟨{ crew with station := s }, held'⟩ := by
  refine ⟨⟨same_capacity.trans h.capacity, same_flow.trans h.flow, h.busy⟩, here, ?_⟩
  intro p other
  change Bay.mk (s.pool.lane p) _ (heldAt held' p) (saidOf p s.signals) = _
  rw [lanes p other, told p other, others p other]
  rfl

theorem comes_enter {i : Intake σ} (h : i.Ready b capacity flow) (m : Message) :
    Comes b capacity flow m.receipt.partition (if i.held.isNone then 1 else 0) 0 i
      (i.move settler disturb b (.enter m)) := by
  obtain ⟨crew, held⟩ := i
  cases held with
  | some m' => exact comes_still h _
  | none =>
    have lane (p : Int) : (crew.station.enter m).pool.lane p = if p = m.receipt.partition
        then ((crew.station.pool.lane m.receipt.partition).countIn capacity).1 else crew.station.pool.lane p := by
      rw [← h.capacity]
      exact Pool.lane_setLane ..
    have told (p : Int) : saidOf p (crew.station.enter m).signals = saidOf p crew.station.signals ++
        if p = m.receipt.partition
        then said flow ((crew.station.pool.lane m.receipt.partition).countIn capacity).2 else [] := by
      rw [← h.capacity, ← h.flow, ← saidOf_signals]
      exact saidOf_append ..
    refine comes_source h rfl rfl ?_ ?_ ?_ ?_
    · exact fun p other => (lane p).trans (if_neg other)
    · intro p other
      rw [told, if_neg other, List.append_nil]
    · exact fun p other => (heldAt_some m p).trans (if_neg other)
    · rw [lane, told, heldAt_some, if_pos rfl, if_pos rfl, if_pos rfl]
      exact .entered _

theorem deliver_alive {s : Station σ} {m : Message} (alive : (s.pool.lane m.receipt.partition).alive = true) :
    ∃ order, s.deliver m = { s with pool := { s.pool.setLane m.receipt.partition { s.pool.lane m.receipt.partition with
      queue := (s.pool.lane m.receipt.partition).queue ++ [m] } with order } } := by
  simp only [Station.deliver, Pool.deliver, alive, if_true, List.append_nil]
  exact ⟨_, rfl⟩

theorem deliver_dead {s : Station σ} {m : Message} (dead : (s.pool.lane m.receipt.partition).alive = false) :
    s.deliver m = { s with
      pool := (s.pool.account m.receipt.partition 1).1
      signals := s.signals ++ (s.pool.account m.receipt.partition 1).2 } := by
  simp only [Station.deliver, Pool.deliver, dead, if_false, Bool.false_eq_true]

theorem comes_deliver {crew : Crew σ} {m : Message} (h : Ready b capacity flow ⟨crew, some m⟩) :
    Comes b capacity flow m.receipt.partition 0
      (if ¬ (crew.station.pool.lane m.receipt.partition).alive then 1 else 0) ⟨crew, some m⟩
      (move settler disturb b ⟨crew, some m⟩ .deliver) := by
  have one : (bay ⟨crew, some m⟩ m.receipt.partition).held = 0 + 1 := (heldAt_some m _).trans (if_pos rfl)
  have others (p : Int) (other : p ≠ m.receipt.partition) : heldAt none p = heldAt (some m) p :=
    ((heldAt_some m p).trans (if_neg other)).symm
  simp only [move]
  cases alive : (crew.station.pool.lane m.receipt.partition).alive with
  | true =>
    obtain ⟨order, same⟩ := deliver_alive alive
    rw [same, if_neg (by simp)]
    have lane (p : Int) := Pool.lane_setLane crew.station.pool m.receipt.partition
      { crew.station.pool.lane m.receipt.partition with
        queue := (crew.station.pool.lane m.receipt.partition).queue ++ [m] } p
    refine comes_source h rfl rfl ?_ (fun _ _ => rfl) others ?_
    · exact fun p other => (lane p).trans (if_neg other)
    · change Bay.Goes _ _ _ _ _ ⟨(crew.station.pool.setLane _ _).lane _, _, 0, _⟩
      rw [lane, if_pos rfl]
      exact .sent one m
  | false =>
    rw [deliver_dead alive, if_pos (by simp)]
    have lane (p : Int) : (crew.station.pool.account m.receipt.partition 1).1.lane p = if p = m.receipt.partition
        then ((crew.station.pool.lane m.receipt.partition).countOut capacity 1).1 else crew.station.pool.lane p := by
      rw [← h.capacity]
      exact Pool.lane_setLane ..
    have told (p : Int) : saidOf p (crew.station.signals ++ (crew.station.pool.account m.receipt.partition 1).2) =
        saidOf p crew.station.signals ++ if p = m.receipt.partition
        then said flow ((crew.station.pool.lane m.receipt.partition).countOut capacity 1).2 else [] := by
      rw [← h.capacity, ← h.flow, ← saidOf_signals]
      exact saidOf_append ..
    refine comes_source h rfl rfl ?_ ?_ others ?_
    · exact fun p other => (lane p).trans (if_neg other)
    · intro p other
      rw [told, if_neg other, List.append_nil]
    · rw [lane, told, if_pos rfl, if_pos rfl]
      exact .refused one

/-- What a move comes to at the partition `p`, be it on that partition or not. -/
structure At (b : Backoff) (capacity : Nat) (flow : Bool) (p : Int) (i : Intake σ) (move : Move ε) (i' : Intake σ) :
    Prop where
  ready : i'.Ready b capacity flow
  goes : (i.bay p).Goes capacity flow (i.countedIn p move) (i.countedOut p move) (i'.bay p)
  elsewhere : i.partition? move ≠ some p → i'.bay p = i.bay p

theorem at_of_comes {p q : Int} {ins outs : Nat} {i i' : Intake σ} {move : Move ε}
    (h : Comes b capacity flow q ins outs i i') (on : i.partition? move = some q)
    (counted_in : i.countedIn p move = if p = q then ins else 0)
    (counted_out : i.countedOut p move = if p = q then outs else 0) : At b capacity flow p i move i' := by
  refine ⟨h.ready, ?_, ?_⟩
  · rw [counted_in, counted_out]
    by_cases here : p = q
    · subst here
      rw [if_pos rfl, if_pos rfl]
      exact h.here
    · rw [if_neg here, if_neg here, h.elsewhere p here]
      exact .still _
  · intro other
    refine h.elsewhere p ?_
    rintro rfl
    exact other on

theorem at_still {p : Int} {i i' : Intake σ} {move : Move ε} (ready : i'.Ready b capacity flow)
    (still : i'.bay p = i.bay p) (counted_in : i.countedIn p move = 0) (counted_out : i.countedOut p move = 0) :
    At b capacity flow p i move i' := by
  refine ⟨ready, ?_, fun _ => still⟩
  rw [counted_in, counted_out, still]
  exact .still _

theorem move_at {i : Intake σ} (h : i.Ready b capacity flow) (move : Move ε) (p : Int) :
    At b capacity flow p i move (i.move settler disturb b move) := by
  cases move with
  | enter m =>
    refine at_of_comes (comes_enter settler disturb h m) rfl ?_ (ite_self 0).symm
    unfold countedIn
    by_cases here : p = m.receipt.partition
    · simp [here]
    · simp [here, Ne.symm here]
  | deliver =>
    obtain ⟨crew, held⟩ := i
    cases held with
    | none => exact at_still h rfl rfl rfl
    | some m =>
      refine at_of_comes (comes_deliver settler disturb h) rfl (ite_self 0).symm ?_
      unfold countedOut
      by_cases here : p = m.receipt.partition
      · subst here
        simp
      · simp [here, Ne.symm here]
  | receive q => exact at_of_comes (comes_receive settler disturb h q) rfl (ite_self 0).symm (ite_self 0).symm
  | gather q => exact at_of_comes (comes_gather settler disturb h q) rfl (ite_self 0).symm (ite_self 0).symm
  | turn q =>
    obtain ⟨outs, counted, comes⟩ := comes_turn settler disturb h q
    exact at_of_comes comes rfl (ite_self 0).symm (counted p)
  | lose q => exact at_of_comes (comes_lose settler disturb h q) rfl (ite_self 0).symm (ite_self 0).symm
  | change e =>
    have pool := i.crew.station.change_pool disturb e
    have signals : (i.crew.station.change disturb e).signals = i.crew.station.signals := by cases e <;> rfl
    refine at_still ⟨?_, ?_, h.busy⟩ ?_ rfl rfl
    · exact (congrArg Pool.capacity pool).trans h.capacity
    · exact (congrArg Pool.flow pool).trans h.flow
    · change Bay.mk ((i.crew.station.change disturb e).pool.lane p) _ _
        (saidOf p (i.crew.station.change disturb e).signals) = _
      rw [pool, signals]
      rfl

def total (b : Backoff) (count : Intake σ → Move ε → Nat) (i : Intake σ) : List (Move ε) → Nat
  | [] => 0
  | move :: moves => count i move + total b count (i.move settler disturb b move) moves

/-- The source hands a message of the partition `p` over only while the lane is not paused. -/
def Heeds (b : Backoff) (p : Int) (i : Intake σ) : List (Move ε) → Prop
  | [] => True
  | move :: moves =>
    (i.countedIn p move = 1 → (i.crew.station.pool.lane p).paused = false) ∧
      Heeds b p (i.move settler disturb b move) moves

variable {settler disturb}

theorem run_regulated {i : Intake σ} (h : i.Ready b capacity flow) (some_room : 1 ≤ capacity) {p : Int} {ins outs : Nat}
    (start : (i.bay p).Regulated capacity flow ins outs) (schedule : List (Move ε)) :
    let i' := i.run settler disturb b schedule
    i'.Ready b capacity flow ∧
      (i'.bay p).Regulated capacity flow (ins + total settler disturb b (countedIn p) i schedule)
        (outs + total settler disturb b (countedOut p) i schedule) := by
  induction schedule generalizing i ins outs with
  | nil => exact ⟨h, start⟩
  | cons move schedule ih =>
    have step := move_at settler disturb h move p
    have later := ih step.ready (Bay.goes_regulated step.goes some_room start)
    rw [Nat.add_assoc, Nat.add_assoc] at later
    exact later

theorem run_bounded {i : Intake σ} (h : i.Ready b capacity flow) (some_room : 1 ≤ capacity) {p : Int} {ins outs : Nat}
    (start : (i.bay p).Regulated capacity flow ins outs) {schedule : List (Move ε)}
    (heeds : Heeds settler disturb b p i schedule) (bounded : (i.bay p).lane.queued ≤ capacity) :
    ((i.run settler disturb b schedule).bay p).lane.queued ≤ capacity := by
  induction schedule generalizing i ins outs with
  | nil => exact bounded
  | cons move schedule ih =>
    have step := move_at settler disturb h move p
    exact ih step.ready (Bay.goes_regulated step.goes some_room start) heeds.2
      (Bay.goes_bounded step.goes start heeds.1 bounded)

theorem start_ready (s : Station σ) (b : Backoff) (batchSize capacity : Nat) (flow : Bool) :
    (start s batchSize capacity flow).Ready b (max capacity 1) flow :=
  ⟨rfl, rfl, nofun⟩

theorem start_regulated (s : Station σ) (batchSize capacity : Nat) (flow : Bool) (p : Int) :
    ((start s batchSize capacity flow).bay p).Regulated (max capacity 1) flow 0 0 := by
  refine ⟨rfl, Nat.le_refl 0, fun _ => rfl, ⟨?_, nofun⟩, ⟨fun _ => rfl, ?_, fun _ => rfl⟩⟩
  · exact fun _ => Nat.lt_of_lt_of_le Nat.one_pos (Nat.le_max_right _ _)
  · exact fun _ => ⟨nofun, nofun⟩

/-- At every partition and in every order of the steps, also when messages cannot be sent. -/
theorem flow_regulated (settler : Instant → Settler σ) (disturb : ε → σ → σ) (b : Backoff) (s : Station σ)
    (batchSize capacity : Nat) (flow : Bool) (schedule : List (Move ε)) (p : Int) :
    let start := start s batchSize capacity flow
    let i := start.run settler disturb b schedule
    let lane := i.crew.station.pool.lane p
    (i.bay p).Regulated (max capacity 1) flow (start.total settler disturb b (countedIn p) schedule)
        (start.total settler disturb b (countedOut p) schedule) ∧
      (∀ move : Move ε, i.countedOut p move ≤ lane.queued) ∧
      (lane.queued = 0 → lane.paused = false) ∧
      (start.Heeds settler disturb b p schedule → lane.queued ≤ max capacity 1) ∧
      ∀ move : Move ε, i.partition? move ≠ some p → (i.move settler disturb b move).bay p = i.bay p := by
  intro start i lane
  have some_room : 1 ≤ max capacity 1 := Nat.le_max_right _ _
  have ready := start_ready s b batchSize capacity flow
  have first := start_regulated s batchSize capacity flow p
  have both : i.Ready b (max capacity 1) flow ∧ (i.bay p).Regulated (max capacity 1) flow _ _ :=
    run_regulated ready some_room first schedule
  obtain ⟨ready', regulated⟩ := both
  rw [Nat.zero_add, Nat.zero_add] at regulated
  refine ⟨regulated, ?_, ?_, ?_, ?_⟩
  · exact fun move => Bay.goes_covered (move_at settler disturb ready' move p).goes regulated
  · intro empty
    cases paused : lane.paused with
    | false => rfl
    | true =>
      have some_left : max capacity 1 / 2 < lane.queued := regulated.level.above paused
      exact absurd (empty ▸ some_left) (Nat.not_lt_zero _)
  · exact fun heeds => run_bounded ready some_room first heeds (Nat.zero_le _)
  · exact fun move => (move_at settler disturb ready' move p).elsewhere

instance heedsDecidable (b : Backoff) (p : Int) :
    (i : Intake σ) → (moves : List (Move ε)) → Decidable (i.Heeds settler disturb b p moves)
  | _, [] => inferInstanceAs (Decidable True)
  | i, move :: moves =>
    have := heedsDecidable b p (i.move settler disturb b move) moves
    inferInstanceAs (Decidable (_ ∧ _))

def bounce : List (Move Arming) :=
  [.enter (taking 0 0), .deliver, .receive 0, .gather 0, .turn 0, .lose 0, .enter (taking 0 1), .deliver]

theorem flow_regulated_bounce :
    let start := start stand 1 0 true
    let i := start.run Faulty.settleMemory Faulty.arm twice bounce
    start.Heeds Faulty.settleMemory Faulty.arm twice 0 bounce ∧
      (i.bay 0).told = [.pause, .resume, .pause, .resume] ∧ (i.bay 0).Regulated 1 true 2 2 := by
  intro start i
  have heeds : start.Heeds Faulty.settleMemory Faulty.arm twice 0 bounce := by decide +kernel
  have told : (i.bay 0).told = [.pause, .resume, .pause, .resume] := by decide +kernel
  have ins : start.total Faulty.settleMemory Faulty.arm twice (countedIn 0) bounce = 2 := by decide +kernel
  have outs : start.total Faulty.settleMemory Faulty.arm twice (countedOut 0) bounce = 2 := by decide +kernel
  have regulated := (flow_regulated Faulty.settleMemory Faulty.arm twice stand 1 0 true bounce 0).1
  rw [ins, outs] at regulated
  exact ⟨heeds, told, regulated⟩

def ofCrew : Settlement.Move ε → List (Move ε)
  | .dispatch m => [.enter m, .deliver]
  | .receive p => [.receive p]
  | .gather p => [.gather p]
  | .turn p => [.turn p]
  | .change e => [.change e]

theorem deliver_enter (s : Station σ) (m : Message) : (s.enter m).deliver m = (s.dispatch m).1 := by
  have lane : (s.enter m).pool.lane m.receipt.partition =
      ((s.pool.lane m.receipt.partition).countIn s.pool.capacity).1 := (Pool.lane_setLane ..).trans (if_pos rfl)
  have again (l : Lane) : (s.enter m).pool.setLane m.receipt.partition l = s.pool.setLane m.receipt.partition l :=
    Pool.setLane_setLane ..
  simp only [Station.deliver, Pool.deliver, Station.dispatch, Pool.dispatch, Pool.account, lane, again]
  split
  · simp only [List.append_nil]
    rfl
  · rw [← List.append_assoc]
    rfl

/-- Workers that are sent each message as it is counted in do nothing that is not told of here. -/
theorem run_ofCrew (b : Backoff) (c : Crew σ) (schedule : List (Settlement.Move ε)) :
    (Intake.mk c none).run settler disturb b (schedule.flatMap ofCrew) = ⟨c.run settler disturb b schedule, none⟩ := by
  induction schedule generalizing c with
  | nil => rfl
  | cons move schedule ih =>
    refine (List.foldl_append ..).trans ?_
    have step : (Intake.mk c none).run settler disturb b (ofCrew move) = ⟨c.move settler disturb b move, none⟩ := by
      cases move with
      | dispatch m => exact congrArg (fun s => Intake.mk { c with station := s } none) (deliver_enter c.station m)
      | _ => rfl
    exact (congrArg (fun i => Intake.run settler disturb b i _) step).trans (ih _)

end Intake

end CampaignSettlement.Settlement
