import CampaignSettlement.Proofs.Ledger.Histories

/-!
What a call for all campaigns leaves in the rows of its date. A row is overwritten if its campaign has a record in the
window; no row is taken away, so that a campaign without one keeps what the last call before gave it, over another
window perhaps. The rows of the date are those of the window alone when each campaign that had one is met again, and so
when the windows written before for that date lie inside this one: records are never removed.
-/
namespace CampaignSettlement.Ledger

open Calendar (Date Instant)

def Window.Inside (w' w : Window) : Prop := w.start ≤ w'.start ∧ w'.stop ≤ w.stop

theorem holds_inside {w' w : Window} (inside : w'.Inside w) {t : Instant} (held : w'.holds t = true) :
    w.holds t = true := by
  obtain ⟨starts, stops⟩ := inside
  rw [Window.holds, Bool.and_eq_true, decide_eq_true_eq, decide_eq_true_eq] at held ⊢
  constructor
  · exact Int.le_trans starts held.1
  · change t.rank < w.stop.rank
    exact Int.lt_of_lt_of_le held.2 stops

namespace MemoryLedger

variable {l : MemoryLedger} {es : List Event} {w : Window}

theorem mem_values (empty : l.stats = []) (es : List Event) {row : DailyStat} :
    row ∈ (l.after es).stats.values ↔ (l.after es).stats.get? ⟨row.campaign, row.date⟩ = some row := by
  have ascending : (l.after es).stats.Ascending := ascending_after (by rw [empty]; exact .nil) es
  constructor
  · intro member
    obtain ⟨⟨k, row'⟩, there, rfl⟩ := List.mem_map.mp member
    change (l.after es).stats.get? ⟨row'.campaign, row'.date⟩ = some row'
    rw [← row_key empty there]
    exact Table.get?_of_mem ascending there
  · intro found
    exact List.mem_map_of_mem (Table.mem_of_get? found)

/-- The rows of the window's date are those of the window, with the log at `rs`. -/
def Exactly (w : Window) (rs : List Record) (rows : List DailyStat) : Prop :=
  ∀ row, row ∈ rows ∧ row.date = w.date ↔ recordsIn w rs row.campaign ≠ [] ∧ row = dailyRow w rs row.campaign

/-- What is left at `l'` of the rows of `l`, after the events `es`, by a call for all campaigns. -/
structure Overwrites (origin : MemoryLedger) (es : List Event) (w : Window) (l l' : MemoryLedger) : Prop where
  written : ∀ campaign, recordsIn w l.records campaign ≠ [] → dailyRow w l.records campaign ∈ l'.stats.values
  /-- A campaign that the window does not meet keeps the row of the last call that met it. -/
  kept : ∀ row : DailyStat, recordsIn w l.records row.campaign = [] → row.date = w.date →
    (row ∈ l'.stats.values ↔
      ∃ w' rs, LastBorne origin es row.campaign w.date w' rs ∧ row = dailyRow w' rs row.campaign)
  others : ∀ row : DailyStat, row.date ≠ w.date → (row ∈ l'.stats.values ↔ row ∈ l.stats.values)
  exactly : Exactly w l.records l'.stats.values ↔
    ∀ row ∈ l.stats.values, row.date = w.date → recordsIn w l.records row.campaign ≠ []
  enclosing : (∀ w' only, .write w' only ∈ es → w'.date = w.date → w'.Inside w) →
    Exactly w l.records l'.stats.values

theorem row_written {n : Nat} (empty : l.stats = []) (passed : ((l.after es).writeTotals w none).2 = .ok n)
    (row : DailyStat) :
    row ∈ (l.after (es ++ [.write w none])).stats.values ↔
      if row.date = w.date ∧ recordsIn w (l.after es).records row.campaign ≠ [] then
        row = dailyRow w (l.after es).records row.campaign
      else row ∈ (l.after es).stats.values := by
  rw [mem_values empty, after_snoc]
  change ((l.after es).writeTotals w none).1.stats.get? ⟨row.campaign, row.date⟩ = some row ↔ _
  split
  case isTrue met =>
    have bears : Bears (l.after es) w none row.campaign row.date := ⟨⟨n, passed⟩, met.1.symm, Or.inl rfl, met.2⟩
    rw [stats_bears bears, Option.some.injEq, eq_comm]
  case isFalse unmet =>
    have unborne : ¬Bears (l.after es) w none row.campaign row.date := fun bears => unmet ⟨bears.dated.symm, bears.met⟩
    rw [stats_unborne unborne, mem_values empty]

theorem lastBorne_met {campaign : Int} {d : Date} {w' : Window} {rs : List Record}
    (last : LastBorne l es campaign d w' rs) (inside : w'.Inside w) :
    recordsIn w (l.after es).records campaign ≠ [] := by
  obtain ⟨before, only, later, rfl, bears, rfl, -⟩ := last
  obtain ⟨r, member⟩ := List.exists_mem_of_ne_nil _ bears.met
  obtain ⟨there, own⟩ := List.mem_filter.mp member
  obtain ⟨held, campaign_eq⟩ := Bool.and_eq_true_iff.mp own
  obtain ⟨more, grown⟩ := records_after (l.after before) (.write w' only :: later)
  have whole : (l.after (before ++ .write w' only :: later)).records = (l.after before).records ++ more := by
    rw [← grown, after, List.foldl_append]
    rfl
  refine List.ne_nil_of_mem (a := r) (List.mem_filter.mpr ⟨?_, ?_⟩)
  · rw [whole]
    exact List.mem_append_left _ there
  · rw [holds_inside inside held, campaign_eq]
    rfl

theorem full_call_overwrites (empty : l.stats = []) (es : List Event) (w : Window) {n : Nat}
    (passed : ((l.after es).writeTotals w none).2 = .ok n) :
    Overwrites l es w (l.after es) (l.after (es ++ [.write w none])) := by
  have tells := row_written empty passed
  have before (row : DailyStat) (dated : row.date = w.date) : row ∈ (l.after es).stats.values ↔
      ∃ w' rs, LastBorne l es row.campaign w.date w' rs ∧ row = dailyRow w' rs row.campaign := by
    rw [mem_values empty, dated]
    exact get?_after empty es row
  have exactly : Exactly w (l.after es).records (l.after (es ++ [.write w none])).stats.values ↔
      ∀ row ∈ (l.after es).stats.values, row.date = w.date → recordsIn w (l.after es).records row.campaign ≠ [] := by
    constructor
    · intro exactly row there dated unmet
      have left := (tells row).mpr (by rwa [if_neg fun met => met.2 unmet])
      exact ((exactly row).mp ⟨left, dated⟩).1 unmet
    · intro met row
      rw [tells]
      constructor
      · rintro ⟨there, dated⟩
        split at there
        case isTrue here => exact ⟨here.2, there⟩
        case isFalse missed => exact absurd ⟨dated, met row there dated⟩ missed
      · rintro ⟨some, same⟩
        have dated : row.date = w.date := by rw [same]; rfl
        rw [if_pos ⟨dated, some⟩]
        exact ⟨same, dated⟩
  refine ⟨?_, ?_, ?_, exactly, ?_⟩
  · intro campaign met
    rw [tells, if_pos ⟨rfl, met⟩]
    rfl
  · intro row unmet dated
    rw [tells, if_neg fun met => met.2 unmet, before row dated]
  · intro row elsewhere
    rw [tells, if_neg fun met => elsewhere met.1]
  · intro enclosing
    refine exactly.mpr ?_
    intro row there dated
    obtain ⟨w', rs, last, -⟩ := (before row dated).mp there
    have there := last
    obtain ⟨early, only, later, split, bears, -⟩ := there
    have called : Event.write w' only ∈ es := by
      rw [split]
      exact List.mem_append_right _ List.mem_cons_self
    exact lastBorne_met last (enclosing w' only called bears.dated)

def morning : Window := ⟨.startOf saturday, noon, by decide⟩

def afternoon : Window := ⟨noon, dusk, by decide⟩

def morningWritten : List Event :=
  [.launch ⟨1, 5, .startOf saturday⟩, .launch ⟨2, 5, .startOf saturday⟩,
    .settle noon .begin, .settle noon (.append 1 ⟨2, 7, .success, none, none, none, 1⟩),
    .settle (.startOf saturday) (.commit 1),
    .settle noon .begin, .settle noon (.append 2 ⟨1, 8, .success, none, none, none, 2⟩), .settle noon (.commit 2),
    .write morning none]

theorem full_call_overwrites_day :
    let l := ({} : MemoryLedger).after morningWritten
    let l' := ({} : MemoryLedger).after (morningWritten ++ [.write allDay none])
    (l.writeTotals allDay none).2 = .ok 2 ∧ l'.stats.values = [⟨1, saturday, 1, 0⟩, ⟨2, saturday, 1, 0⟩] ∧
      Overwrites {} morningWritten allDay l l' :=
  ⟨by decide +kernel, by decide +kernel, full_call_overwrites (n := 2) rfl morningWritten allDay (by decide +kernel)⟩

/-- The afternoon has no record of campaign 2, whose row still says what was sold of it in the morning. -/
theorem afternoon_keeps_morning :
    let l := ({} : MemoryLedger).after morningWritten
    let l' := ({} : MemoryLedger).after (morningWritten ++ [.write afternoon none])
    (l.writeTotals afternoon none).2 = .ok 1 ∧ recordsIn afternoon l.records 2 = [] ∧
      l'.stats.values = [⟨1, saturday, 1, 0⟩, ⟨2, saturday, 1, 0⟩] ∧ ¬Exactly afternoon l.records l'.stats.values := by
  intro l l'
  have rows : l'.stats.values = [⟨1, saturday, 1, 0⟩, ⟨2, saturday, 1, 0⟩] := by decide +kernel
  have unmet : recordsIn afternoon l.records 2 = [] := by decide +kernel
  refine ⟨by decide +kernel, unmet, rows, ?_⟩
  intro exactly
  have stale : (⟨2, saturday, 1, 0⟩ : DailyStat) ∈ l'.stats.values := by
    rw [rows]
    exact List.mem_cons_of_mem _ List.mem_cons_self
  exact ((exactly ⟨2, saturday, 1, 0⟩).mp ⟨stale, rfl⟩).1 unmet

end MemoryLedger

end CampaignSettlement.Ledger
