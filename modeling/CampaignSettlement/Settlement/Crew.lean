import CampaignSettlement.Settlement.Course
import CampaignSettlement.Settlement.Station

/-!
Workers that take turns. Each goes on by one question at a time, and between two questions of one worker
any other may go on, take a message from its queue or be sent one, and the station may change. A schedule
is the list of moves in the order in which they are made.
-/
namespace CampaignSettlement.Settlement

open Ledger (Settler Table)
open Calendar (Instant)
open Wire (Message)

structure Turns (σ α : Type) where
  state : σ
  courses : List (Course α)

/-- A turn of the program in place `i`, or a change `ε` from outside. -/
inductive Beat (ε : Type)
  | turn (i : Nat)
  | change (e : ε)
deriving DecidableEq, Repr

namespace Turns

variable {σ α ε : Type}

def start (s : σ) (programs : List (Program α)) : Turns σ α := ⟨s, programs.map fun p => ⟨[], p⟩⟩

def turn (answer : σ → (q : Ask) → σ × q.Reply) (t : Turns σ α) (i : Nat) : Turns σ α :=
  match t.courses[i]? with
  | none => t
  | some c =>
    let (state, c) := c.step answer t.state
    ⟨state, t.courses.set i c⟩

theorem turn_none (answer : σ → (q : Ask) → σ × q.Reply) {t : Turns σ α} {i : Nat} (h : t.courses[i]? = none) :
    t.turn answer i = t := by
  simp only [turn, h]

theorem turn_some (answer : σ → (q : Ask) → σ × q.Reply) {t : Turns σ α} {i : Nat} {c : Course α}
    (h : t.courses[i]? = some c) :
    t.turn answer i = ⟨(c.step answer t.state).1, t.courses.set i (c.step answer t.state).2⟩ := by
  simp only [turn, h]

theorem turn_cases (answer : σ → (q : Ask) → σ × q.Reply) (t : Turns σ α) (i : Nat) :
    t.turn answer i = t ∨ ∃ c q next, t.courses[i]? = some c ∧ c.rest = .ask q next ∧
      t.turn answer i = ⟨(answer t.state q).1,
        t.courses.set i ⟨c.asked ++ [⟨q, (answer t.state q).2⟩], next (answer t.state q).2⟩⟩ := by
  cases at_course : t.courses[i]? with
  | none => exact Or.inl (turn_none answer at_course)
  | some c =>
    rw [turn_some answer at_course]
    cases asks : c.rest with
    | done a =>
      obtain ⟨within, same⟩ := List.getElem?_eq_some_iff.mp at_course
      left
      rw [Course.step_done answer t.state asks, ← same, List.set_getElem_self within]
    | ask q next => exact Or.inr ⟨c, q, next, rfl, asks, by rw [Course.step_ask answer t.state asks]⟩

def beat (answer : σ → (q : Ask) → σ × q.Reply) (change : σ → ε → σ) (t : Turns σ α) : Beat ε → Turns σ α
  | .turn i => t.turn answer i
  | .change e => { t with state := change t.state e }

def run (answer : σ → (q : Ask) → σ × q.Reply) (change : σ → ε → σ) (t : Turns σ α)
    (schedule : List (Beat ε)) : Turns σ α :=
  schedule.foldl (beat answer change) t

end Turns

structure Round where
  batch : List Message
  asked : List Exchange

inductive Phase
  | idle
  | gathering (batch : List Message)
  | busy (batch : List Message) (course : Course Bool)

structure Worker where
  past : List Round := []
  phase : Phase := .idle

/-- The pool of a station with the workers of its partitions, each a task of its own. -/
structure Crew (σ : Type) where
  station : Station σ
  workers : Table Int Worker := []

inductive Move (ε : Type)
  | dispatch (m : Message)
  /-- An idle worker takes the first message of a batch. -/
  | receive (partition : Int)
  /-- A worker takes one more message for its batch, or is content with it. -/
  | gather (partition : Int)
  /-- A busy worker asks its next question. -/
  | turn (partition : Int)
  | change (e : Station.Change ε)
deriving DecidableEq, Repr

namespace Crew

variable {σ ε : Type}

def start (s : Station σ) (batchSize capacity : Nat) (flow : Bool) : Crew σ :=
  { station := { s with pool := .ofSizes batchSize capacity flow } }

def worker (c : Crew σ) (partition : Int) : Worker := (c.workers.get? partition).getD {}

def set (c : Crew σ) (station : Station σ) (partition : Int) (w : Worker) : Crew σ :=
  ⟨station, c.workers.put partition w⟩

/-- A round that has ended is put away; its worker may end with it. -/
def keep (c : Crew σ) (station : Station σ) (partition : Int) (past : List Round) (batch : List Message)
    (course : Course Bool) : Crew σ :=
  match course.rest with
  | .ask .. => c.set station partition ⟨past, .busy batch course⟩
  | .done true => c.set station partition ⟨past ++ [⟨batch, course.asked⟩], .idle⟩
  | .done false =>
    c.set { station with pool := station.pool.lose partition } partition ⟨past ++ [⟨batch, course.asked⟩], .idle⟩

theorem keep_ask (c : Crew σ) (s : Station σ) (partition : Int) (past : List Round) (batch : List Message)
    {course : Course Bool} {q : Ask} {next : q.Reply → Program Bool} (h : course.rest = .ask q next) :
    c.keep s partition past batch course = c.set s partition ⟨past, .busy batch course⟩ := by
  simp only [keep, h]

theorem keep_done (c : Crew σ) (s : Station σ) (partition : Int) (past : List Round) (batch : List Message)
    {course : Course Bool} {goesOn : Bool} (h : course.rest = .done goesOn) :
    c.keep s partition past batch course =
      c.set { s with pool := if goesOn then s.pool else s.pool.lose partition } partition
        ⟨past ++ [⟨batch, course.asked⟩], .idle⟩ := by
  cases goesOn <;> simp only [keep, h, if_true, if_false, Bool.false_eq_true]

/-- A move that is not possible changes nothing. -/
def move (settler : Instant → Settler σ) (disturb : ε → σ → σ) (b : Backoff) (c : Crew σ) : Move ε → Crew σ
  | .dispatch m => { c with station := (c.station.dispatch m).1 }
  | .receive partition =>
    match c.worker partition with
    | ⟨past, .idle⟩ =>
      match c.station.pool.pop? partition with
      | some (m, pool) => c.set { c.station with pool } partition ⟨past, .gathering [m]⟩
      | none => c
    | _ => c
  | .gather partition =>
    match c.worker partition with
    | ⟨past, .gathering batch⟩ =>
      let begin := c.set c.station partition ⟨past, .busy batch ⟨[], round b partition batch⟩⟩
      if batch.length < c.station.pool.batchSize then
        match c.station.pool.pop? partition with
        | some (m, pool) => c.set { c.station with pool } partition ⟨past, .gathering (batch ++ [m])⟩
        | none => begin
      else begin
    | _ => c
  | .turn partition =>
    match c.worker partition with
    | ⟨past, .busy batch course⟩ =>
      let (station, course) := course.step (Station.answer settler) c.station
      c.keep station partition past batch course
    | _ => c
  | .change e => { c with station := c.station.change disturb e }

def run (settler : Instant → Settler σ) (disturb : ε → σ → σ) (b : Backoff) (c : Crew σ)
    (schedule : List (Move ε)) : Crew σ :=
  schedule.foldl (move settler disturb b) c

end Crew

end CampaignSettlement.Settlement
