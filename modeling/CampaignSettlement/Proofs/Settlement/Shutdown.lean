import CampaignSettlement.Proofs.Settlement.Delivery
import CampaignSettlement.Proofs.Settlement.Draining
import Mathlib.Logic.Function.Basic

/-!
Workers that go on one after the other. Queues that are drained worker by worker are one schedule among all others; so
what is true after every schedule is true when the queues have been drained, and the workers can always come to rest.
-/
namespace CampaignSettlement.Settlement

open Calendar (Instant)
open Ledger (Settler Table)
open Wire (Message)

variable {σ ε : Type}

def Move.Own : Move ε → Prop
  | receive _ | gather _ | turn _ => True
  | dispatch _ | change _ => False

section Works

variable (settler : Instant → Settler σ) (disturb : ε → σ → σ) (b : Backoff)

/-- Workers can get from `c` to `c'` by their own moves. -/
def Works (c c' : Crew σ) : Prop :=
  ∃ schedule : List (Move ε), (∀ move ∈ schedule, move.Own) ∧ c.run settler disturb b schedule = c'

variable {settler disturb b}

theorem works_refl (c : Crew σ) : Works settler disturb b c c := ⟨[], by simp, rfl⟩

theorem works_trans {c c' c'' : Crew σ} (first : Works settler disturb b c c')
    (second : Works settler disturb b c' c'') : Works settler disturb b c c'' := by
  obtain ⟨schedule, own, rfl⟩ := first
  obtain ⟨later, own', rfl⟩ := second
  refine ⟨schedule ++ later, ?_, List.foldl_append⟩
  intro move member
  rcases List.mem_append.mp member with here | there
  · exact own move here
  · exact own' move there

theorem worker_update (c : Crew σ) (s : Station σ) (p : Int) (w : Worker) :
    (c.set s p w).worker = Function.update c.worker p w := by
  funext y
  rw [worker_set]
  by_cases own : y = p
  · subst own
    simp
  · simp [own]

def Reaches (settler : Instant → Settler σ) (disturb : ε → σ → σ) (b : Backoff) (c : Crew σ) (p : Int) (w : Worker)
    (s : Station σ) : Prop :=
  ∃ c', Works settler disturb b c c' ∧ c'.station = s ∧ c'.worker = Function.update c.worker p w

theorem reaches_trans {c c' : Crew σ} {p : Int} {w v : Worker} {s : Station σ} (first : Works settler disturb b c c')
    (between : c'.worker = Function.update c.worker p v) (second : Reaches settler disturb b c' p w s) :
    Reaches settler disturb b c p w s := by
  obtain ⟨c'', later, station, worker⟩ := second
  refine ⟨c'', works_trans first later, station, ?_⟩
  rw [worker, between, Function.update_idem]

theorem reaches_self (c : Crew σ) (p : Int) : Reaches settler disturb b c p (c.worker p) c.station :=
  ⟨c, works_refl c, rfl, (Function.update_eq_self p c.worker).symm⟩

theorem Pool.pop?_setLane (base : Pool) (p : Int) (m : Message) (rest : List Message) (queued : Nat) (paused : Bool) :
    (base.setLane p ⟨m :: rest, queued, paused, true⟩).pop? p =
      some (m, base.setLane p ⟨rest, queued, paused, true⟩) := by
  have lane : (base.setLane p ⟨m :: rest, queued, paused, true⟩).lane p = ⟨m :: rest, queued, paused, true⟩ := by
    rw [lane_setLane, if_pos rfl]
  simp only [pop?, lane, setLane_setLane]

theorem Pool.pop?_empty (base : Pool) (p : Int) (queued : Nat) (paused : Bool) :
    (base.setLane p ⟨[], queued, paused, true⟩).pop? p = none := by
  have lane : (base.setLane p ⟨[], queued, paused, true⟩).lane p = ⟨[], queued, paused, true⟩ := by
    rw [lane_setLane, if_pos rfl]
  simp only [pop?, lane]

theorem move_receive {c : Crew σ} {p : Int} {past : List Round} {m : Message} {pool : Pool}
    (at_work : c.worker p = ⟨past, .idle⟩) (popped : c.station.pool.pop? p = some (m, pool)) :
    c.move settler disturb b (.receive p) = c.set { c.station with pool } p ⟨past, .gathering [m]⟩ := by
  simp only [Crew.move, at_work, popped]

theorem move_gather_more {c : Crew σ} {p : Int} {past : List Round} {batch : List Message} {m : Message} {pool : Pool}
    (at_work : c.worker p = ⟨past, .gathering batch⟩) (room : batch.length < c.station.pool.batchSize)
    (popped : c.station.pool.pop? p = some (m, pool)) :
    c.move settler disturb b (.gather p) = c.set { c.station with pool } p ⟨past, .gathering (batch ++ [m])⟩ := by
  simp only [Crew.move, at_work, room, popped, if_true]

theorem move_gather_content {c : Crew σ} {p : Int} {past : List Round} {batch : List Message}
    (at_work : c.worker p = ⟨past, .gathering batch⟩)
    (content : ¬ batch.length < c.station.pool.batchSize ∨ c.station.pool.pop? p = none) :
    c.move settler disturb b (.gather p) = c.set c.station p ⟨past, .busy batch ⟨[], round b p batch⟩⟩ := by
  rcases content with full | empty
  · simp only [Crew.move, at_work, full, if_false]
  · simp only [Crew.move, at_work, empty, ite_self]

variable (settler disturb b)

theorem works_move (c : Crew σ) (move : Move ε) (own : move.Own) :
    Works settler disturb b c (c.move settler disturb b move) :=
  ⟨[move], by simpa using own, rfl⟩

theorem turns_reach (p : Int) (past : List Round) (batch : List Message) (program : Program Bool) {c : Crew σ}
    {asked : List Exchange} (at_work : c.worker p = ⟨past, .busy batch ⟨asked, program⟩⟩) :
    Reaches settler disturb b c p
      ⟨past ++ [⟨batch, asked ++ program.transcript (Station.answer settler) c.station⟩], .idle⟩
      ((program.run (Station.answer settler) c.station).1.closing p
        (program.run (Station.answer settler) c.station).2) := by
  induction program generalizing c asked with
  | done goesOn =>
    have moved : c.move settler disturb b (.turn p) =
        c.set (c.station.closing p goesOn) p ⟨past ++ [⟨batch, asked⟩], .idle⟩ := by
      simp only [Crew.move, at_work, Course.step]
      exact Crew.keep_done c c.station p past batch rfl
    have worked := works_move settler disturb b c (.turn p) trivial
    rw [moved] at worked
    refine ⟨_, worked, rfl, ?_⟩
    rw [worker_update, Program.transcript, List.append_nil]
  | ask q next ih =>
    have worked := works_move settler disturb b c (.turn p) trivial
    have stepped := Course.step_ask (Station.answer settler) c.station (c := ⟨asked, .ask q next⟩) rfl
    simp only [Crew.move, at_work, stepped] at worked
    have later := @ih (c.station.answer settler q).2
    simp only [Program.transcript, Program.run]
    generalize c.station.answer settler q = answered at worked later ⊢
    obtain ⟨s, r⟩ := answered
    dsimp only at worked later ⊢
    cases left : next r with
    | done goesOn =>
      rw [left, Crew.keep_done c s p past batch rfl] at worked
      exact ⟨_, worked, rfl, worker_update ..⟩
    | ask q' next' =>
      rw [left] at later
      rw [left, Crew.keep_ask c s p past batch rfl] at worked
      have at_work' : (c.set s p ⟨past, .busy batch ⟨asked ++ [⟨q, r⟩], .ask q' next'⟩⟩).worker p =
          ⟨past, .busy batch ⟨asked ++ [⟨q, r⟩], .ask q' next'⟩⟩ := by rw [worker_set, if_pos rfl]
      have reached := later at_work'
      rw [List.append_assoc] at reached
      exact reaches_trans worked (worker_update ..) reached

theorem gather_reach (p : Int) (past : List Round) (base : Pool) (queued : Nat) (paused : Bool)
    (queue batch : List Message) {c : Crew σ} (pool : c.station.pool = base.setLane p ⟨queue, queued, paused, true⟩)
    (at_work : c.worker p = ⟨past, .gathering batch⟩) :
    let more := queue.take (base.batchSize - batch.length)
    Reaches settler disturb b c p ⟨past, .busy (batch ++ more) ⟨[], round b p (batch ++ more)⟩⟩
      { c.station with pool := base.setLane p ⟨queue.drop (base.batchSize - batch.length), queued, paused, true⟩ } := by
  induction queue generalizing c batch with
  | nil =>
    have empty : c.station.pool.pop? p = none := by rw [pool, Pool.pop?_empty]
    have worked := works_move settler disturb b c (.gather p) trivial
    rw [move_gather_content at_work (Or.inr empty)] at worked
    simp only [List.take_nil, List.drop_nil, List.append_nil]
    exact ⟨_, worked, by rw [← pool]; rfl, worker_update ..⟩
  | cons m queue ih =>
    have size : c.station.pool.batchSize = base.batchSize := by rw [pool]; rfl
    have worked := works_move settler disturb b c (.gather p) trivial
    by_cases room : batch.length < base.batchSize
    · have popped : c.station.pool.pop? p = some (m, base.setLane p ⟨queue, queued, paused, true⟩) := by
        rw [pool, Pool.pop?_setLane]
      rw [move_gather_more at_work (by omega) popped] at worked
      have reached := ih (batch ++ [m])
        (c := c.set { c.station with pool := base.setLane p ⟨queue, queued, paused, true⟩ } p
          ⟨past, .gathering (batch ++ [m])⟩) rfl (by rw [worker_set, if_pos rfl])
      have one_less : base.batchSize - batch.length = base.batchSize - (batch ++ [m]).length + 1 := by
        rw [List.length_append, List.length_singleton]
        omega
      rw [one_less, List.take_succ_cons, List.drop_succ_cons]
      dsimp only at reached
      rw [List.append_assoc] at reached
      exact reaches_trans worked (worker_update ..) reached
    · have full : base.batchSize - batch.length = 0 := by omega
      rw [move_gather_content at_work (Or.inl (by omega))] at worked
      simp only [full, List.take_zero, List.drop_zero, List.append_nil]
      exact ⟨_, worked, by rw [← pool]; rfl, worker_update ..⟩

theorem receive_reach (p : Int) (past : List Round) {c : Crew σ} (at_work : c.worker p = ⟨past, .idle⟩)
    {pool : Pool} {batch : List Message} (received : c.station.pool.receive p = (pool, batch))
    (some_message : batch ≠ []) :
    Reaches settler disturb b c p ⟨past, .busy batch ⟨[], round b p batch⟩⟩ { c.station with pool } := by
  have taken : c.station.pool.receive p = (pool, batch) := received
  unfold Pool.receive at taken
  rcases lane : c.station.pool.lane p with ⟨queue, queued, paused, alive⟩
  rw [lane] at taken
  cases alive with
  | false =>
    obtain ⟨-, rfl⟩ := Prod.mk.inj taken
    exact absurd rfl some_message
  | true =>
    obtain ⟨rfl, rfl⟩ := Prod.mk.inj taken
    cases queue with
    | nil => exact absurd List.take_nil some_message
    | cons m rest =>
      have size : c.station.pool.batchSize ≠ 0 := fun none => some_message (by simp [none])
      obtain ⟨n, one_more⟩ := Nat.exists_eq_succ_of_ne_zero size
      have worked := works_move settler disturb b c (.receive p) trivial
      have popped : c.station.pool.pop? p = some (m, c.station.pool.setLane p ⟨rest, queued, paused, true⟩) := by
        simp only [Pool.pop?, lane]
      rw [move_receive at_work popped] at worked
      have reached := gather_reach settler disturb b p past c.station.pool queued paused rest [m]
        (c := c.set { c.station with pool := c.station.pool.setLane p ⟨rest, queued, paused, true⟩ } p
          ⟨past, .gathering [m]⟩) rfl (by rw [worker_set, if_pos rfl])
      simp only [one_more, List.length_singleton, Nat.succ_sub_one] at reached
      simp only [one_more, List.take_succ_cons, List.drop_succ_cons]
      exact reaches_trans worked (worker_update ..) reached

theorem drainLane_reach (p : Int) (fuel : Nat) {c : Crew σ} (at_rest : (c.worker p).phase = .idle) :
    ∃ w, w.phase = .idle ∧ Reaches settler disturb b c p w (c.station.drainLane settler b p fuel) := by
  induction fuel generalizing c with
  | zero => exact ⟨_, at_rest, reaches_self c p⟩
  | succ fuel ih =>
    rcases received : c.station.pool.receive p with ⟨pool, batch⟩
    by_cases none : batch = []
    · rw [none] at received
      rw [Station.drainLane_stop received]
      exact ⟨_, at_rest, reaches_self c p⟩
    · rcases ran : (round b p batch).run (Station.answer settler) { c.station with pool } with ⟨s, goesOn⟩
      rw [Station.drainLane_go_on received none ran]
      obtain ⟨past, idle⟩ : ∃ past, c.worker p = ⟨past, .idle⟩ := ⟨_, congrArg (Worker.mk _) at_rest⟩
      obtain ⟨c', worked, station, worker⟩ := receive_reach settler disturb b p past idle received none
      have busy : c'.worker p = ⟨past, .busy batch ⟨[], round b p batch⟩⟩ := by rw [worker, Function.update_self]
      have reached := turns_reach settler disturb b p past batch _ busy
      rw [station, ran] at reached
      obtain ⟨c'', worked', station', worker'⟩ := reaches_trans worked worker reached
      cases goesOn with
      | true =>
        obtain ⟨w, idle', later⟩ := ih (c := c'') (by rw [worker', Function.update_self])
        rw [station'] at later
        exact ⟨w, idle', reaches_trans worked' worker' later⟩
      | false => exact ⟨_, rfl, c'', worked', station', worker'⟩

theorem drainLanes_works (order : List Int) {c : Crew σ} (at_rest : ∀ p, (c.worker p).phase = .idle) :
    ∃ c', Works settler disturb b c c' ∧ (∀ p, (c'.worker p).phase = .idle) ∧
      c'.station =
        order.foldl (fun s p => s.drainLane settler b p ((s.pool.lane p).queue.length + 1)) c.station := by
  induction order generalizing c with
  | nil => exact ⟨c, works_refl c, at_rest, rfl⟩
  | cons p order ih =>
    obtain ⟨w, idle, c', worked, station, worker⟩ := drainLane_reach settler disturb b p
      ((c.station.pool.lane p).queue.length + 1) (at_rest p)
    have still_at_rest : ∀ y, (c'.worker y).phase = .idle := by
      intro y
      rw [worker]
      by_cases own : y = p
      · rw [own, Function.update_self]
        exact idle
      · rw [Function.update_of_ne own]
        exact at_rest y
    obtain ⟨c'', worked', idle', station'⟩ := ih still_at_rest
    rw [station] at station'
    exact ⟨c'', works_trans worked worked', idle', station'⟩

theorem content_ends {c : Crew σ} {p : Int} {past : List Round} {batch : List Message}
    (at_work : c.worker p = ⟨past, .gathering batch⟩)
    (content : ¬ batch.length < c.station.pool.batchSize ∨ c.station.pool.pop? p = none) :
    ∃ w s, w.phase = .idle ∧ Reaches settler disturb b c p w s := by
  have worked := works_move settler disturb b c (.gather p) trivial
  rw [move_gather_content at_work content] at worked
  have busy : (c.set c.station p ⟨past, .busy batch ⟨[], round b p batch⟩⟩).worker p =
      ⟨past, .busy batch ⟨[], round b p batch⟩⟩ := by rw [worker_set, if_pos rfl]
  have reached := turns_reach settler disturb b p past batch _ busy
  exact ⟨_, _, rfl, reaches_trans worked (worker_update ..) reached⟩

theorem gathering_ends (p : Int) (past : List Round) (n : Nat) {c : Crew σ} {batch : List Message}
    (at_work : c.worker p = ⟨past, .gathering batch⟩) (left : c.station.pool.batchSize - batch.length = n) :
    ∃ w s, w.phase = .idle ∧ Reaches settler disturb b c p w s := by
  induction n generalizing c batch with
  | zero => exact content_ends settler disturb b at_work (Or.inl (by omega))
  | succ n ih =>
    cases popped : c.station.pool.pop? p with
    | none => exact content_ends settler disturb b at_work (Or.inr popped)
    | some taken =>
      obtain ⟨m, pool⟩ := taken
      have worked := works_move settler disturb b c (.gather p) trivial
      rw [move_gather_more at_work (by omega) popped] at worked
      obtain ⟨rest, before, size, after⟩ := Pool.pop?_some popped
      have one_less : pool.batchSize - (batch ++ [m]).length = n := by
        rw [size, List.length_append, List.length_singleton]
        omega
      obtain ⟨w, s, idle, reached⟩ := ih (c := c.set { c.station with pool } p ⟨past, .gathering (batch ++ [m])⟩)
        (by rw [worker_set, if_pos rfl]) one_less
      exact ⟨w, s, idle, reaches_trans worked (worker_update ..) reached⟩

theorem worker_ends (p : Int) (c : Crew σ) : ∃ w s, w.phase = .idle ∧ Reaches settler disturb b c p w s := by
  rcases at_work : c.worker p with ⟨past, phase⟩
  cases phase with
  | idle => exact ⟨c.worker p, _, by rw [at_work], reaches_self c p⟩
  | gathering batch => exact gathering_ends settler disturb b p past _ at_work rfl
  | busy batch course => exact ⟨_, _, rfl, turns_reach settler disturb b p past batch course.rest at_work⟩

theorem workers_end (ps : List Int) (c : Crew σ) :
    ∃ c', Works settler disturb b c c' ∧ (∀ p ∈ ps, (c'.worker p).phase = .idle) ∧
      ∀ p, (c.worker p).phase = .idle → (c'.worker p).phase = .idle := by
  induction ps generalizing c with
  | nil => exact ⟨c, works_refl c, by simp, fun _ idle => idle⟩
  | cons p ps ih =>
    obtain ⟨w, s, idle, c', worked, -, worker⟩ := worker_ends settler disturb b p c
    obtain ⟨c'', worked', all, still⟩ := ih c'
    have own : (c'.worker p).phase = .idle := by rw [worker, Function.update_self]; exact idle
    refine ⟨c'', works_trans worked worked', ?_, ?_⟩
    · intro y member
      rcases List.mem_cons.mp member with same | later
      · rw [same]
        exact still p own
      · exact all y later
    · intro y before
      by_cases same : y = p
      · rw [same]
        exact still p own
      · apply still y
        rw [worker, Function.update_of_ne same]
        exact before

theorem sentTo_own {schedule : List (Move ε)} (own : ∀ move ∈ schedule, move.Own) (p : Int) :
    sentTo schedule p = [] := by
  have none : schedule.filterMap Move.sent? = [] := by
    refine List.filterMap_eq_nil_iff.mpr ?_
    intro move member
    have owned := own move member
    cases move with
    | dispatch m => exact absurd owned id
    | _ => rfl
  rw [sentTo, none, List.filter_nil]

theorem Manned.works {size : Nat} {sent : Int → List Message} {c c' : Crew σ} (h : Manned b size sent c)
    (some_room : 1 ≤ size) (worked : Works settler disturb b c c') : Manned b size sent c' := by
  obtain ⟨schedule, own, rfl⟩ := worked
  have manned := manned_run settler disturb h some_room schedule
  simp only [sentTo_own own, List.append_nil] at manned
  exact manned

theorem Manned.sound {size : Nat} {sent : Int → List Message} {c : Crew σ} (h : Manned b size sent c)
    (some_room : 1 ≤ size) : c.station.pool.Sound := by
  constructor
  · rw [h.cut]
    exact some_room
  · intro y dead
    exact ((h.lined y).lost dead).2.1

/-- From anywhere the workers can come to rest and leave nothing queued. -/
theorem workers_drain {size : Nat} {sent : Int → List Message} {c : Crew σ} (h : Manned b size sent c)
    (some_room : 1 ≤ size) :
    ∃ c', Works settler disturb b c c' ∧ Manned b size sent c' ∧
      ∀ p, (c'.worker p).phase = .idle ∧ (c'.station.pool.lane p).queue = [] := by
  obtain ⟨c', worked, ended, still⟩ := workers_end settler disturb b c.workers.keys c
  have at_rest : ∀ p, (c'.worker p).phase = .idle := by
    intro p
    cases found : c.workers.get? p with
    | none => exact still p (by rw [Crew.worker, found]; rfl)
    | some w => exact ended p (List.mem_map_of_mem (Table.mem_of_get? found))
  -- all lanes are drained here, as the order of first dispatches says nothing of a pool in the middle of a run
  obtain ⟨c'', worked', at_rest', station⟩ := drainLanes_works settler disturb b c'.station.pool.lanes.keys at_rest
  have manned := h.works settler disturb b some_room worked
  refine ⟨c'', works_trans worked worked', manned.works settler disturb b some_room worked', ?_⟩
  intro p
  refine ⟨at_rest' p, ?_⟩
  have listed : ∀ y, (c'.station.pool.standing y).1 ≠ [] → y ∈ c'.station.pool.lanes.keys := by
    intro y queued
    cases found : c'.station.pool.lanes.get? y with
    | none => exact absurd (by rw [Pool.standing, Pool.lane, found]; rfl) queued
    | some l => exact List.mem_map_of_mem (Table.mem_of_get? found)
  have empty := drainLanes_empty settler b _ (manned.sound b some_room) listed p
  rw [← station] at empty
  exact empty

end Works

theorem run_dispatches (settler : Instant → Settler σ) (disturb : ε → σ → σ) (b : Backoff) (c : Crew σ)
    (ms : List Message) :
    c.run settler disturb b (ms.map .dispatch) = { c with station := c.station.dispatchAll ms } := by
  induction ms generalizing c with
  | nil => rfl
  | cons m ms ih => exact ih { c with station := (c.station.dispatch m).1 }

theorem sentTo_dispatches (ms : List Message) (p : Int) :
    sentTo (ms.map Move.dispatch : List (Move ε)) p = ms.filter fun m => m.receipt.partition = p := by
  have all : (ms.map Move.dispatch : List (Move ε)).filterMap Move.sent? = ms := by
    rw [List.filterMap_map]
    exact List.filterMap_some
  rw [sentTo, all]

/-- Messages that have been dispatched are delivered when the queues have been drained: nobody is at work, nothing is
queued, and what was due has been done. -/
theorem drain_delivers (settler : Instant → Settler σ) (disturb : ε → σ → σ) (b : Backoff) (s : Station σ)
    (batchSize capacity : Nat) (flow : Bool) (ms : List Message) :
    let queued := (Crew.start s batchSize capacity flow).station.dispatchAll ms
    ∃ c : Crew σ, queued.drain settler b = { c.station with pool := { c.station.pool with order := [] } } ∧
      ∀ p, (c.worker p).phase = .idle ∧ (c.station.pool.lane p).queue = [] ∧
        Delivered b (max batchSize 1) p (ms.filter fun m => m.receipt.partition = p) (c.station.pool.lane p)
          (c.worker p) := by
  intro queued
  have some_room : 1 ≤ max batchSize 1 := Nat.le_max_right _ _
  have manned : Manned b (max batchSize 1) (fun p => ms.filter fun m => m.receipt.partition = p)
      { Crew.start s batchSize capacity flow with station := queued } := by
    have begun := manned_run settler disturb (manned_start s b batchSize capacity flow) some_room (ms.map .dispatch)
    simp only [List.nil_append, sentTo_dispatches, run_dispatches] at begun
    exact begun
  have listed : queued.pool.Listed := listed_dispatchAll ms fun y queued => absurd rfl queued
  obtain ⟨c, worked, at_rest, station⟩ := drainLanes_works settler disturb b queued.pool.order
    (c := { Crew.start s batchSize capacity flow with station := queued }) fun p => rfl
  refine ⟨c, ?_, ?_⟩
  · rw [station]
    rfl
  · intro p
    have empty := drainLanes_empty settler b queued.pool.order (manned.sound b some_room) listed p
    rw [← station] at empty
    have delivered := lined_delivered ((manned.works settler disturb b some_room worked).lined p)
    exact ⟨at_rest p, empty, delivered⟩

/-- Whatever the schedule, the store and the changes at the station are; and when nothing more is dispatched, the
workers can go on until all has been delivered. -/
theorem batches_delivered_and_acked (settler : Instant → Settler σ) (disturb : ε → σ → σ) (b : Backoff)
    (s : Station σ) (batchSize capacity : Nat) (flow : Bool) (schedule : List (Move ε)) :
    let delivered (c : Crew σ) (p : Int) :=
      Delivered b (max batchSize 1) p (sentTo schedule p) (c.station.pool.lane p) (c.worker p)
    let c := (Crew.start s batchSize capacity flow).run settler disturb b schedule
    (∀ p, delivered c p) ∧
      ∃ c', Works settler disturb b c c' ∧
        ∀ p, delivered c' p ∧ (c'.worker p).phase = .idle ∧ (c'.station.pool.lane p).queue = [] := by
  intro delivered c
  have some_room : 1 ≤ max batchSize 1 := Nat.le_max_right _ _
  have manned : Manned b (max batchSize 1) (fun p => [] ++ sentTo schedule p) c :=
    manned_run settler disturb (manned_start s b batchSize capacity flow) some_room schedule
  constructor
  · intro p
    exact lined_delivered (manned.lined p)
  · obtain ⟨c', worked, manned', at_rest⟩ := workers_drain settler disturb b manned some_room
    refine ⟨c', worked, ?_⟩
    intro p
    exact ⟨lined_delivered (manned'.lined p), at_rest p⟩

end CampaignSettlement.Settlement
