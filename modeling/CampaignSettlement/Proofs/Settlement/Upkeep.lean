import CampaignSettlement.Proofs.Settlement.Accord
import CampaignSettlement.Proofs.Settlement.Delivery
import CampaignSettlement.Proofs.Settlement.Reading

/-!
What workers keep up over one ledger. A property of the rounds that have ended, of those under way and of the
station holds after every schedule when it survives each single thing that can happen: a round begins, a question
that is due is answered, a round ends, the surroundings change. Queues have no part in it.
-/
namespace CampaignSettlement.Settlement

open Ledger (Arming Faulty MemoryLedger)
open Wire (Message)

def Round.desk (r : Round) : Desk := deskAfter r.batch r.asked

def Round.none : Round := ⟨[], []⟩

def Round.ask (r : Round) (q : Ask) (reply : q.Reply) : Round := ⟨r.batch, r.asked ++ [⟨q, reply⟩]⟩

theorem round_desk_ask (r : Round) (q : Ask) (reply : q.Reply) : (r.ask q reply).desk = r.desk.after q reply :=
  deskAfter_snoc r.batch r.asked q reply

def Worker.now (w : Worker) : Round :=
  match w.phase with
  | .busy batch course => ⟨batch, course.asked⟩
  | _ => .none

abbrev MemoryCrew := Crew (Faulty MemoryLedger)

abbrev MemoryStation := Station (Faulty MemoryLedger)

/-- Knowledge of the rounds that have ended, of those under way, and of the station. -/
abbrev Knowledge := (past : Int → List Round) → (now : Int → Round) → MemoryStation → Prop

abbrev Shift := MemoryStation → MemoryStation → Prop

/-- The knowledge `P` outlives everything that can happen while workers settle messages `Q` and shifts `E` occur. -/
structure Upkeep (b : Backoff) (Q : Int → Message → Prop) (E : Shift) (P : Knowledge) : Prop where
  queues : ∀ {past now s}, P past now s → ∀ pool signals, P past now { s with pool, signals }
  begun : ∀ {past now s y batch}, P past now s → now y = .none → (∀ m ∈ batch, Q y m) →
    P past (Function.update now y ⟨batch, []⟩) s
  asked : ∀ {past now s y q next}, P past now s → Accord (fun z => (now z).desk) s.holdings →
    (∀ m ∈ (now y).batch, Q y m) → (round b y (now y).batch).Leads (now y).asked (.ask q next) →
    P past (Function.update now y ((now y).ask q (s.answer Faulty.settleMemory q).2)) (s.answer Faulty.settleMemory q).1
  closed : ∀ {past now s y goesOn}, P past now s → (∀ m ∈ (now y).batch, Q y m) →
    (round b y (now y).batch).Leads (now y).asked (.done goesOn) →
    P (Function.update past y (past y ++ [now y])) (Function.update now y .none) s
  changed : ∀ {past now s s'}, P past now s → E s s' → P past now s'

def Each (I : MemoryStation → Prop) (R : Round → Prop) : Knowledge := fun past now s =>
  I s ∧ ∀ y, R (now y) ∧ ∀ r ∈ past y, R r

/-- What a round keeps up by its own questions needs nothing of the other rounds. -/
theorem Upkeep.each {b : Backoff} {Q : Int → Message → Prop} {E : Shift} {I : MemoryStation → Prop} {R : Round → Prop}
    (queues : ∀ {s}, I s → ∀ pool signals, I { s with pool, signals })
    (fresh : ∀ batch, R ⟨batch, []⟩)
    (asked : ∀ {s r q}, I s → R r → r.desk.HeldIn s.holdings → r.desk.allows q →
      I (s.answer Faulty.settleMemory q).1 ∧ R (r.ask q (s.answer Faulty.settleMemory q).2))
    (changed : ∀ {s s'}, I s → E s s' → I s') : Upkeep b Q E (Each I R) where
  queues h pool signals := ⟨queues h.1 pool signals, h.2⟩
  begun := by
    rintro past now s y batch ⟨station, rounds⟩ - -
    refine ⟨station, ?_⟩
    intro z
    by_cases own : z = y
    · subst own
      rw [Function.update_self]
      exact ⟨fresh batch, (rounds z).2⟩
    · rw [Function.update_of_ne own]
      exact rounds z
  asked := by
    rintro past now s y q next ⟨station, rounds⟩ accord - course
    obtain ⟨station', round'⟩ := asked station (rounds y).1 (accord.held y) (round_allows course rfl)
    refine ⟨station', ?_⟩
    intro z
    by_cases own : z = y
    · subst own
      rw [Function.update_self]
      exact ⟨round', (rounds z).2⟩
    · rw [Function.update_of_ne own]
      exact rounds z
  closed := by
    rintro past now s y goesOn ⟨station, rounds⟩ - -
    refine ⟨station, ?_⟩
    intro z
    by_cases own : z = y
    · subst own
      rw [Function.update_self, Function.update_self]
      refine ⟨fresh [], ?_⟩
      intro r member
      rcases List.mem_append.mp member with earlier | last
      · exact (rounds z).2 r earlier
      · exact List.mem_singleton.mp last ▸ (rounds z).1
    · rw [Function.update_of_ne own, Function.update_of_ne own]
      exact rounds z
  changed h allowed := ⟨changed h.1 allowed, h.2⟩

structure Kept (b : Backoff) (size : Nat) (sent : Int → List Message) (P : Knowledge) (c : MemoryCrew) : Prop where
  manned : Manned b size sent c
  accord : Accord (fun y => (c.worker y).now.desk) c.station.holdings
  known : P (fun y => (c.worker y).past) (fun y => (c.worker y).now) c.station

variable {b : Backoff} {size : Nat} {sent : Int → List Message} {Q : Int → Message → Prop}
  {E : Shift} {P : Knowledge} {c : MemoryCrew} {ε : Type} {disturb : ε → Faulty MemoryLedger → Faulty MemoryLedger}

theorem set_at {β : Type} (f : Worker → β) (c : MemoryCrew) (s : MemoryStation) (y : Int) (w : Worker) :
    (fun z => f ((c.set s y w).worker z)) = Function.update (fun z => f (c.worker z)) y (f w) := by
  funext z
  rw [worker_set]
  by_cases own : z = y
  · subst own
    simp
  · simp [own]

theorem Kept.set {s : MemoryStation} {y : Int} {w : Worker} (manned : Manned b size sent (c.set s y w))
    (accord : Accord (Function.update (fun z => (c.worker z).now.desk) y w.now.desk) s.holdings)
    (known : P (Function.update (fun z => (c.worker z).past) y w.past)
      (Function.update (fun z => (c.worker z).now) y w.now) s) : Kept b size sent P (c.set s y w) := by
  refine ⟨manned, ?_, ?_⟩
  · rw [set_at fun w => w.now.desk]
    exact accord
  · rw [set_at Worker.past, set_at Worker.now]
    exact known

theorem Kept.take (h : Kept b size sent P c) (upkeep : Upkeep b Q E P) {y : Int} {past : List Round} {phase : Phase}
    {pool : Pool} {batch : List Message} (at_work : c.worker y = ⟨past, phase⟩) (before : (c.worker y).now = .none)
    (manned : Manned b size sent (c.set { c.station with pool } y ⟨past, .gathering batch⟩)) :
    Kept b size sent P (c.set { c.station with pool } y ⟨past, .gathering batch⟩) := by
  have same_past : Function.update (fun z => (c.worker z).past) y past = fun z => (c.worker z).past := by
    rw [show past = (c.worker y).past by rw [at_work]]
    exact Function.update_eq_self ..
  have same_now : Function.update (fun z => (c.worker z).now) y .none = fun z => (c.worker z).now := by
    rw [← before]
    exact Function.update_eq_self ..
  refine .set manned (h.accord.rest y rfl) ?_
  change P (Function.update _ y past) (Function.update _ y .none) _
  rw [same_past, same_now]
  exact upkeep.queues h.known pool c.station.signals

def Expected (Q : Int → Message → Prop) (sent : Int → List Message) : Prop := ∀ y, ∀ m ∈ sent y, Q y m

theorem lined_batch {partition : Int} {sent : List Message} {standing : List Message × Bool} {w : Worker}
    (h : Lined b size partition sent standing w) {batch : List Message} (present : w.phase.batch? = some batch) :
    ∀ m ∈ batch, m ∈ sent := by
  intro m member
  refine h.in_order.mem (List.mem_append_left _ ?_)
  simp [Worker.batches, present, member]

theorem Kept.step (h : Kept b size sent P c) (upkeep : Upkeep b Q E P) (expected : Expected Q sent) {y : Int}
    {past : List Round} {batch : List Message} {course : Course Bool}
    (at_work : c.worker y = ⟨past, .busy batch course⟩) :
    let stepped := course.step (Station.answer Faulty.settleMemory) c.station
    Accord (Function.update (fun z => (c.worker z).now.desk) y (deskAfter batch stepped.2.asked)) stepped.1.holdings ∧
      P (fun z => (c.worker z).past) (Function.update (fun z => (c.worker z).now) y ⟨batch, stepped.2.asked⟩)
        stepped.1 := by
  have now : (c.worker y).now = ⟨batch, course.asked⟩ := by rw [at_work]; rfl
  have lined := h.manned.lined y
  rw [at_work] at lined
  have of_batch : ∀ m ∈ batch, Q y m := fun m member => expected y m (lined_batch lined rfl m member)
  cases asks : course.rest with
  | done goesOn =>
    rw [Course.step_done _ _ asks]
    dsimp only
    rw [← now, show deskAfter batch course.asked = (c.worker y).now.desk by rw [now]; rfl, Function.update_eq_self,
      Function.update_eq_self]
    exact ⟨h.accord, h.known⟩
  | ask q next =>
    rw [Course.step_ask _ _ asks]
    dsimp only
    have ahead : (round b y batch).Leads course.asked (.ask q next) := asks ▸ lined.phase.2
    rw [deskAfter_snoc]
    have desk : (c.worker y).now.desk = deskAfter batch course.asked := by rw [now]; rfl
    rw [← desk]
    refine ⟨h.accord.step (i := y) ?_ (answer_answered c.station q), ?_⟩
    · rw [desk]
      exact round_allows ahead rfl
    · have asked := @Upkeep.asked b Q E P upkeep _ _ _ y q next h.known h.accord
      rw [now] at asked
      exact asked of_batch ahead

theorem kept_turn (h : Kept b size sent P c) (upkeep : Upkeep b Q E P) (expected : Expected Q sent) (y : Int) :
    Kept b size sent P (c.move Faulty.settleMemory disturb b (.turn y)) := by
  have manned := manned_turn Faulty.settleMemory disturb h.manned y
  rcases at_work : c.worker y with ⟨past, phase⟩
  cases phase with
  | idle | gathering batch =>
    simp only [Crew.move, at_work]
    exact h
  | busy batch course =>
    have lined := h.manned.lined y
    rw [at_work] at lined
    have of_batch : ∀ m ∈ batch, Q y m := fun m member => expected y m (lined_batch lined rfl m member)
    have ahead := Course.of_step (Station.answer Faulty.settleMemory) c.station lined.phase.2
    have stepped := h.step upkeep expected at_work
    have earlier : (c.worker y).past = past := by rw [at_work]
    simp only [Crew.move, at_work] at manned ⊢
    generalize course.step (Station.answer Faulty.settleMemory) c.station = step at ahead stepped manned ⊢
    obtain ⟨s, course'⟩ := step
    obtain ⟨accord, known⟩ := stepped
    rw [Course.Of] at ahead
    dsimp only at ahead accord known manned ⊢
    cases asks : course'.rest with
    | ask q next =>
      rw [Crew.keep_ask _ _ _ _ _ asks] at manned ⊢
      refine .set manned accord ?_
      rw [← earlier, Function.update_eq_self]
      exact known
    | done goesOn =>
      rw [asks] at ahead
      rw [Crew.keep_done _ _ _ _ _ asks] at manned ⊢
      have closed := @Upkeep.closed b Q E P upkeep _ _ s y goesOn known
      simp only [Function.update_self, Function.update_idem, earlier] at closed
      refine .set manned ?_ (upkeep.queues (closed of_batch ahead) _ s.signals)
      have rest := accord.rest y (d := Round.none.desk) rfl
      rwa [Function.update_idem] at rest

theorem kept_receive (h : Kept b size sent P c) (upkeep : Upkeep b Q E P) (some_room : 1 ≤ size) (y : Int) :
    Kept b size sent P (c.move Faulty.settleMemory disturb b (.receive y)) := by
  have manned := manned_receive Faulty.settleMemory disturb h.manned y some_room
  rcases at_work : c.worker y with ⟨past, phase⟩
  cases phase with
  | gathering batch | busy batch course =>
    simp only [Crew.move, at_work]
    exact h
  | idle =>
    cases popped : c.station.pool.pop? y with
    | none =>
      simp only [Crew.move, at_work, popped]
      exact h
    | some taken =>
      simp only [Crew.move, at_work, popped] at manned ⊢
      exact h.take upkeep at_work (by rw [at_work]; rfl) manned

theorem kept_gather (h : Kept b size sent P c) (upkeep : Upkeep b Q E P) (expected : Expected Q sent) (y : Int) :
    Kept b size sent P (c.move Faulty.settleMemory disturb b (.gather y)) := by
  have manned := manned_gather Faulty.settleMemory disturb h.manned y
  rcases at_work : c.worker y with ⟨past, phase⟩
  cases phase with
  | idle | busy batch course =>
    simp only [Crew.move, at_work]
    exact h
  | gathering batch =>
    have nothing : (c.worker y).now = .none := by rw [at_work]; rfl
    have begins (manned : Manned b size sent (c.set c.station y ⟨past, .busy batch ⟨[], round b y batch⟩⟩)) :
        Kept b size sent P (c.set c.station y ⟨past, .busy batch ⟨[], round b y batch⟩⟩) := by
      refine .set manned (h.accord.rest y rfl) ?_
      have earlier : past = (c.worker y).past := by rw [at_work]
      rw [earlier, Function.update_eq_self]
      refine upkeep.begun h.known nothing ?_
      have present : (c.worker y).phase.batch? = some batch := by rw [at_work]; rfl
      exact fun m member => expected y m (lined_batch (h.manned.lined y) present m member)
    by_cases room : batch.length < c.station.pool.batchSize
    · cases popped : c.station.pool.pop? y with
      | none =>
        simp only [Crew.move, at_work, room, popped, if_true] at manned ⊢
        exact begins manned
      | some taken =>
        simp only [Crew.move, at_work, room, popped, if_true] at manned ⊢
        exact h.take upkeep at_work nothing manned
    · simp only [Crew.move, at_work, room, if_false] at manned ⊢
      exact begins manned

def Allowed (E : Shift) (disturb : ε → Faulty MemoryLedger → Faulty MemoryLedger) (e : Station.Change ε) : Prop :=
  ∀ s, (s.change disturb e).holdings.works = s.holdings.works ∧
    (s.change disturb e).holdings.lastWork = s.holdings.lastWork ∧ E s (s.change disturb e)

theorem arm_allowed {E : Shift} {e : Station.Change Arming} (shifts : ∀ s, E s (s.change Faulty.arm e)) :
    Allowed E Faulty.arm e := by
  intro s
  rw [change_holdings]
  exact ⟨rfl, rfl, shifts s⟩

theorem Accord.same {desk : Int → Desk} {k k' : Ledger.Holdings} (h : Accord desk k) (works : k'.works = k.works)
    (lastWork : k'.lastWork = k.lastWork) : Accord desk k' := by
  refine ⟨⟨works ▸ h.orderly.ascending, works ▸ lastWork ▸ h.orderly.begun⟩, ?_, h.apart⟩
  intro y work opened
  rw [works]
  exact h.held y work opened

theorem kept_move (h : Kept b size sent P c) (upkeep : Upkeep b Q E P) (expected : Expected Q sent)
    (some_room : 1 ≤ size) (move : Move ε) (allowed : ∀ e, move = .change e → Allowed E disturb e) :
    Kept b size (fun y => sent y ++ sentTo [move] y) P (c.move Faulty.settleMemory disturb b move) := by
  have manned := manned_move Faulty.settleMemory disturb h.manned some_room move
  cases move with
  | dispatch m => exact ⟨manned, h.accord, upkeep.queues h.known _ _⟩
  | change e =>
    obtain ⟨works, lastWork, shifts⟩ := allowed e rfl c.station
    exact ⟨manned, h.accord.same works lastWork, upkeep.changed h.known shifts⟩
  | turn y =>
    simp only [sentTo_other (.turn y) rfl, List.append_nil]
    exact kept_turn h upkeep expected y
  | receive y =>
    simp only [sentTo_other (.receive y) rfl, List.append_nil]
    exact kept_receive h upkeep some_room y
  | gather y =>
    simp only [sentTo_other (.gather y) rfl, List.append_nil]
    exact kept_gather h upkeep expected y

theorem kept_run (h : Kept b size sent P c) (upkeep : Upkeep b Q E P) (some_room : 1 ≤ size)
    (schedule : List (Move ε)) (expected : Expected Q fun y => sent y ++ sentTo schedule y)
    (allowed : ∀ e, .change e ∈ schedule → Allowed E disturb e) :
    Kept b size (fun y => sent y ++ sentTo schedule y) P (c.run Faulty.settleMemory disturb b schedule) := by
  induction schedule generalizing sent c with
  | nil =>
    simp only [sentTo_nil, List.append_nil]
    exact h
  | cons move schedule ih =>
    have before : Expected Q sent := fun y m member => expected y m (List.mem_append_left _ member)
    have moved := kept_move h upkeep before some_room move fun e same => allowed e (by simp [same])
    simp only [sentTo_cons move schedule, ← List.append_assoc] at expected ⊢
    exact ih moved expected fun e member => allowed e (List.mem_cons_of_mem _ member)

theorem kept_start {s : MemoryStation} (upkeep : Upkeep b Q E P) (orderly : s.holdings.Orderly)
    (known : P (fun _ => []) (fun _ => .none) s) (batchSize capacity : Nat) (flow : Bool) :
    Kept b (max batchSize 1) (fun _ => []) P (Crew.start s batchSize capacity flow) := by
  refine ⟨manned_start s b batchSize capacity flow, ⟨orderly, ?_, ?_⟩, upkeep.queues known _ s.signals⟩
  · intro y work opened
    cases opened
  · intro y z work opened
    cases opened

theorem kept_after {s : MemoryStation} (upkeep : Upkeep b Q E P) (orderly : s.holdings.Orderly)
    (known : P (fun _ => []) (fun _ => .none) s) (batchSize capacity : Nat) (flow : Bool)
    (schedule : List (Move ε)) (expected : Expected Q (sentTo schedule))
    (allowed : ∀ e, .change e ∈ schedule → Allowed E disturb e) :
    Kept b (max batchSize 1) (sentTo schedule) P
      ((Crew.start s batchSize capacity flow).run Faulty.settleMemory disturb b schedule) := by
  have begun := kept_start upkeep orderly known batchSize capacity flow
  have ran := kept_run begun upkeep (Nat.le_max_right _ _) schedule (by simpa using expected) allowed
  simpa using ran

end CampaignSettlement.Settlement
