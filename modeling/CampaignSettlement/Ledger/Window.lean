import CampaignSettlement.Json.Time

/-!
Windows of time over the settlement log: from a start up to and without an end. A window belongs to the
date on which it starts.
-/
namespace CampaignSettlement.Ledger

open Calendar (Date Instant)
open Json (Value)

structure Window where
  start : Instant
  stop : Instant
  start_lt : start < stop
deriving DecidableEq

inductive WindowFault
  | inverted (start stop : Instant)
  | lastDay (d : Date)
deriving DecidableEq, Repr

def WindowFault.message : WindowFault → String
  | inverted start stop =>
    "window start " ++ start.display ++ " must be before end " ++ stop.display
  | lastDay d => "no full day follows " ++ d.text

namespace Window

def between (start stop : Instant) : Except WindowFault Window :=
  if h : start < stop then .ok ⟨start, stop, h⟩ else .error (.inverted start stop)

theorem startOf_lt_next {d e : Date} (h : d.next? = some e) : Instant.startOf d < Instant.startOf e := by
  have hday : e.day = d.day + 1 := by
    simp only [Date.next?, Date.add?, Date.ofDay?] at h
    split at h
    · injection h with h; rw [← h]
    · cases h
  show (Instant.startOf d).rank < (Instant.startOf e).rank
  simp only [Instant.rank, Instant.startOf, hday]
  omega

def ofDate (d : Date) : Except WindowFault Window :=
  match h : d.next? with
  | some e => .ok ⟨.startOf d, .startOf e, startOf_lt_next h⟩
  | none => .error (.lastDay d)

def date (w : Window) : Date := w.start.date

def holds (w : Window) (t : Instant) : Bool := decide (w.start ≤ t) && decide (t < w.stop)

def json (w : Window) : Value := .obj [("start", .instant w.start), ("end", .instant w.stop)]

end Window

end CampaignSettlement.Ledger
