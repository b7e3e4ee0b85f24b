import CampaignSettlement.Proofs.Settlement.Rounds

/-!
When sequences are drawn. An attempt looks up the messages of a batch in turn, so the number of its look-ups tells
which message it is at. A message keeps the sequence that it has drawn, and no other is drawn for it in any attempt.
-/
namespace CampaignSettlement.Settlement

open Wire (Message)

structure Draws where
  place : Nat := 0
  drawn : List Nat := []
deriving DecidableEq, Repr

namespace Draws

def after : Draws → (q : Ask) → q.Reply → Draws
  | v, .store .begin, _ => { v with place := 0 }
  | v, .store (.known ..), _ => { v with place := v.place + 1 }
  | v, .draw, _ => { v with drawn := v.drawn ++ [v.place] }
  | v, _, _ => v

def watch : Watch Draws := ⟨fun _ _ => True, after⟩

end Draws

/-- The messages for which sequences were drawn, one mention a draw. -/
def drawsIn (xs : List Exchange) : List Nat := (Draws.watch.track {} xs).drawn

theorem tickets_after {d : Desk} {q : Ask} (allowed : d.allows q) (other : q ≠ .draw) (r : q.Reply) :
    (d.after q r).tickets = d.tickets := by
  have goes := desk_goes allowed r
  generalize d.after q r = d' at goes ⊢
  cases goes with
  | quiet | unbegun | begun | failed | found | took | returned => rfl
  | missed | wrote | committed | uncommitted => simp [Desk.tickets, Desk.reopened]
  | drew => exact absurd rfl other

namespace Draws

def At : Desk → Nat → Prop
  | .opened _ front .looking _, place => place = front.length
  | .opened _ front .taking _, place | .opened _ front (.writing _) _, place => place = front.length + 1
  | _, _ => True

structure OfDesk (d : Desk) (v : Draws) : Prop where
  place : At d v.place
  once : v.drawn.Nodup
  drawn : ∀ i, i + 1 ∈ v.drawn → ∃ t, d.tickets[i]? = some t ∧ t.sequence ≠ none

theorem ofDesk_start (tickets : List Ticket) : OfDesk (.idle tickets) {} :=
  ⟨trivial, .nil, fun i member => by cases member⟩

theorem after_quiet (v : Draws) {q : Ask} (h : ¬ Desk.Counts q) (r : q.Reply) : v.after q r = v := by
  cases q with
  | store c => exact absurd trivial h
  | draw => exact absurd trivial h
  | _ => rfl

theorem after_drawn (v : Draws) {q : Ask} (other : q ≠ .draw) (r : q.Reply) : (v.after q r).drawn = v.drawn := by
  cases q with
  | draw => exact absurd rfl other
  | store c => cases c <;> rfl
  | _ => rfl

theorem place_after {d : Desk} {v : Draws} {q : Ask} (h : At d v.place) (allowed : d.allows q) (r : q.Reply) :
    At (d.after q r) (v.after q r).place := by
  have goes := desk_goes allowed r
  generalize d.after q r = d' at goes ⊢
  cases goes with
  | quiet d still r =>
    rw [after_quiet v still]
    exact h
  | begun => exact rfl
  | found => exact congrArg (· + 1) h
  | missed => exact (congrArg (· + 1) h).trans (by simp)
  | took | drew => exact h
  | wrote => exact Eq.trans h (by simp)
  | unbegun | failed | committed | uncommitted | returned => trivial

theorem ofDesk_draw {d : Desk} {v : Draws} (h : OfDesk d v) (allowed : d.allows .draw) (n : Int) :
    OfDesk (d.after .draw n) (v.after .draw n) := by
  have place := place_after h.place allowed n
  obtain ⟨work, front, r, t, back, rfl, undrawn⟩ := draw_undrawn allowed
  have here : v.place = front.length + 1 := h.place
  have at_front : (Desk.opened work front (.writing r) (t :: back)).tickets[front.length]? = some t := by
    simp [Desk.tickets]
  have numbered : ((Desk.opened work front (.writing r) (t :: back)).after .draw n).tickets =
      (Desk.opened work front (.writing r) (t :: back)).tickets.set front.length { t with sequence := some n } := by
    simp [Desk.after, Desk.go, Desk.tickets]
  refine ⟨place, ?_, ?_⟩
  · refine List.nodup_append.mpr ⟨h.once, by simp, ?_⟩
    intro i earlier j last same
    obtain rfl := List.mem_singleton.mp last
    rw [same, here] at earlier
    obtain ⟨u, at_place, drawn⟩ := h.drawn front.length earlier
    obtain rfl := Option.some.inj (at_front.symm.trans at_place)
    exact drawn undrawn
  · intro i member
    by_cases own : i = front.length
    · subst own
      exact ⟨{ t with sequence := some n }, by simp [Desk.after, Desk.go, Desk.tickets], by simp⟩
    · have earlier : i + 1 ∈ v.drawn := by
        rcases List.mem_append.mp member with earlier | last
        · exact earlier
        · have same := List.mem_singleton.mp last
          omega
      obtain ⟨u, at_place, drawn⟩ := h.drawn i earlier
      refine ⟨u, ?_, drawn⟩
      rw [numbered, List.getElem?_set_ne (Ne.symm own)]
      exact at_place

theorem ofDesk_after {d : Desk} {v : Draws} {q : Ask} (h : OfDesk d v) (allowed : d.allows q) (r : q.Reply) :
    OfDesk (d.after q r) (v.after q r) := by
  by_cases draws : q = .draw
  · subst draws
    exact ofDesk_draw h allowed r
  · refine ⟨place_after h.place allowed r, ?_, ?_⟩
    · rw [after_drawn v draws]
      exact h.once
    · rw [after_drawn v draws, tickets_after allowed draws]
      exact h.drawn

theorem refines_round : Desk.roundWatch.Refines watch fun v u => OfDesk v.desk u :=
  fun _ _ _ related allowed => ⟨trivial, fun r => ofDesk_after related allowed r⟩

end Draws

theorem round_draws_once {b : Backoff} {partition : Int} {batch : List Message} {asked : List Exchange}
    {rest : Program Bool} (course : (round b partition batch).Leads asked rest) : (drawsIn asked).Nodup :=
  (Program.track_refines Draws.refines_round (Draws.ofDesk_start _) (round_keeps b partition batch) course).once

end CampaignSettlement.Settlement
