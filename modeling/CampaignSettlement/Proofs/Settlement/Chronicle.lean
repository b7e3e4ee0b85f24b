import Mathlib.Data.List.Forall2
import CampaignSettlement.Settlement.Crew

/-!
The chronicle of programs that take turns: all that they ask, in the order of time, each question with the place of
the program that asks it. What one program has asked is its part of the chronicle.
-/
namespace CampaignSettlement.Settlement

abbrev Chronicle := List (Nat × Exchange)

def partOf {β : Type} (i : Nat) (xs : List (Nat × β)) : List β := (xs.filter (·.1 == i)).map Prod.snd

section Parts

variable {β : Type} {i j : Nat}

theorem partOf_append (xs ys : List (Nat × β)) : partOf i (xs ++ ys) = partOf i xs ++ partOf i ys := by
  simp [partOf]

theorem partOf_own (bs : List β) : partOf i (bs.map (i, ·)) = bs := by
  induction bs with
  | nil => rfl
  | cons b bs ih => simpa [partOf] using ih

theorem partOf_other (other : j ≠ i) (bs : List β) : partOf i (bs.map (j, ·)) = [] := by
  simp [partOf, other]

theorem partOf_split {xs before later : List (Nat × β)} {b : β} (split : xs = before ++ (i, b) :: later) :
    partOf i xs = partOf i before ++ b :: partOf i later := by
  rw [split, partOf_append]
  simp [partOf]

theorem mem_partOf {xs : List (Nat × β)} {b : β} : b ∈ partOf i xs ↔ (i, b) ∈ xs := by
  simp [partOf]

end Parts

namespace Turns

variable {σ α ε : Type} (answer : σ → (q : Ask) → σ × q.Reply) (change : σ → ε → σ)

def asks (t : Turns σ α) : Beat ε → Chronicle
  | .turn i =>
    match t.courses[i]? with
    | some ⟨_, .ask q _⟩ => [(i, ⟨q, (answer t.state q).2⟩)]
    | _ => []
  | .change _ => []

def chronicle (t : Turns σ α) : List (Beat ε) → Chronicle
  | [] => []
  | move :: schedule => t.asks answer move ++ (t.beat answer change move).chronicle schedule

/-- What a beat can make of the programs and their state, and what is asked in it. -/
inductive Goes (t : Turns σ α) : Turns σ α → Chronicle → Prop
  | idle : Goes t t []
  | changed (e : ε) : Goes t { t with state := change t.state e } []
  | asked {i : Nat} {c : Course α} {q : Ask} {next : q.Reply → Program α} (at_course : t.courses[i]? = some c)
      (due : c.rest = .ask q next) :
      Goes t ⟨(answer t.state q).1, t.courses.set i ⟨c.asked ++ [⟨q, (answer t.state q).2⟩], next (answer t.state q).2⟩⟩
        [(i, ⟨q, (answer t.state q).2⟩)]

theorem beat_goes (t : Turns σ α) (move : Beat ε) :
    Goes answer change t (t.beat answer change move) (t.asks answer move) := by
  cases move with
  | change e => exact .changed e
  | turn i =>
    simp only [beat, asks, turn]
    cases at_course : t.courses[i]? with
    | none => exact .idle
    | some c =>
      obtain ⟨asked, rest⟩ := c
      cases rest with
      | ask q next => exact .asked at_course rfl
      | done a =>
        obtain ⟨within, same⟩ := List.getElem?_eq_some_iff.mp at_course
        have still : t.courses.set i ⟨asked, .done a⟩ = t.courses := by rw [← same, List.set_getElem_self within]
        simp only [Course.step, still]
        exact .idle

variable {answer change}

/-- What every beat preserves holds after a run, of all that was asked in it. -/
theorem run_preserves {P : Turns σ α → Chronicle → Prop}
    (preserves : ∀ t xs move, P t xs → P (t.beat answer change move) (xs ++ t.asks answer move)) {t : Turns σ α}
    {xs : Chronicle} (start : P t xs) (schedule : List (Beat ε)) :
    P (t.run answer change schedule) (xs ++ t.chronicle answer change schedule) := by
  induction schedule generalizing t xs with
  | nil =>
    rw [chronicle, List.append_nil]
    exact start
  | cons move schedule ih =>
    rw [chronicle, ← List.append_assoc]
    exact ih (preserves t xs move start)

theorem run_keeps {P : Turns σ α → Prop} (preserves : ∀ t move, P t → P (t.beat answer change move)) {t : Turns σ α}
    (start : P t) (schedule : List (Beat ε)) : P (t.run answer change schedule) := by
  induction schedule generalizing t with
  | nil => exact start
  | cons move schedule ih => exact ih (preserves t move start)

structure Tells (programs : List (Program α)) (xs : Chronicle) (i : Nat) (c : Course α) : Prop where
  course : ∃ p, programs[i]? = some p ∧ c.Of p
  asked : c.asked = partOf i xs

theorem tells_goes {programs : List (Program α)} {t t' : Turns σ α} {xs ys : Chronicle}
    (tells : ∀ i c, t.courses[i]? = some c → Tells programs xs i c) (goes : Goes answer change t t' ys) :
    ∀ i c, t'.courses[i]? = some c → Tells programs (xs ++ ys) i c := by
  intro i c at_course'
  cases goes with
  | idle | changed =>
    obtain ⟨course, asked⟩ := tells i c at_course'
    exact ⟨course, asked.trans (by rw [List.append_nil])⟩
  | @asked j d q next at_course due =>
    by_cases own : j = i
    · subst own
      obtain ⟨⟨p, program, course⟩, asked⟩ := tells j d at_course
      have within : j < t.courses.length := (List.getElem?_eq_some_iff.mp at_course).1
      simp only [List.getElem?_set_self within, Option.some.injEq] at at_course'
      subst at_course'
      rw [Course.Of, due] at course
      exact ⟨⟨p, program, course.snoc _⟩, by rw [partOf_append, ← asked]; exact congrArg _ (partOf_own [_]).symm⟩
    · rw [List.getElem?_set_ne own] at at_course'
      obtain ⟨course, asked⟩ := tells i c at_course'
      exact ⟨course, by rw [partOf_append, ← asked]; simp [partOf, own]⟩

theorem run_tells (s : σ) (programs : List (Program α)) (schedule : List (Beat ε)) {i : Nat} {c : Course α}
    (at_course : ((start s programs).run answer change schedule).courses[i]? = some c) :
    Tells programs ((start s programs).chronicle answer change schedule) i c := by
  rw [← List.nil_append (chronicle ..)]
  refine run_preserves (P := fun t xs => ∀ i c, t.courses[i]? = some c → Tells programs xs i c)
    (fun t _ move tells => tells_goes tells (beat_goes answer change t move)) ?_ schedule i c at_course
  intro i c at_course
  simp only [start, List.getElem?_map, Option.map_eq_some_iff] at at_course
  obtain ⟨p, program, rfl⟩ := at_course
  exact ⟨⟨p, program, Course.of_start p⟩, rfl⟩

theorem run_length (t : Turns σ α) (schedule : List (Beat ε)) :
    (t.run answer change schedule).courses.length = t.courses.length := by
  refine run_keeps (P := fun t' => t'.courses.length = t.courses.length) ?_ rfl schedule
  intro t' move same
  have goes := beat_goes answer change t' move
  generalize t'.beat answer change move = u, t'.asks answer move = ys at goes ⊢
  cases goes with
  | idle | changed => exact same
  | asked => exact (List.length_set ..).trans same

theorem run_courses (s : σ) (programs : List (Program α)) (schedule : List (Beat ε)) :
    List.Forall₂ (fun p c => Course.Of p c) programs ((start s programs).run answer change schedule).courses := by
  refine List.forall₂_iff_get.mpr ⟨?_, ?_⟩
  · rw [run_length]
    exact (List.length_map ..).symm
  · intro i within within'
    have tells : Tells programs ((start s programs).chronicle answer change schedule) i _ :=
      run_tells s programs schedule (List.getElem?_eq_getElem within')
    obtain ⟨⟨p, program, course⟩, -⟩ := tells
    obtain rfl := Option.some.inj ((List.getElem?_eq_getElem within).symm.trans program)
    exact course

end Turns

end CampaignSettlement.Settlement
