import Mathlib.Algebra.BigOperators.Ring.Finset
import CampaignSettlement.Proofs.Aggregation.Modes

/-!
Runs for whole days. An instant is in the window of its own date and of no other, so that the rows of a campaign,
over all dates on which its records were created, count each record once, however often and in whatever order the
runs are made.
-/
namespace CampaignSettlement

open Calendar (Date Instant)

namespace Ledger

namespace Window

variable {d : Date} {w : Window}

theorem next_day {e : Date} (next : d.next? = some e) : e.day = d.day + 1 := by
  simp only [Date.next?, Date.add?, Date.ofDay?] at next
  split at next
  · injection next with same
    rw [← same]
  · cases next

theorem ofDate_bounds (day : ofDate d = .ok w) : w.start = .startOf d ∧ ∃ e, d.next? = some e ∧ w.stop = .startOf e := by
  unfold ofDate at day
  split at day
  · next e next =>
    cases day
    exact ⟨rfl, e, next, rfl⟩
  · cases day

theorem ofDate_date (day : ofDate d = .ok w) : w.date = d := by
  rw [date, (ofDate_bounds day).1]
  rfl

theorem holds_ofDate (day : ofDate d = .ok w) (t : Instant) : w.holds t = true ↔ t.date = d := by
  obtain ⟨start, e, next, stop⟩ := ofDate_bounds day
  have follows := next_day next
  have second := t.time.second_lt
  have nano := t.time.nano_lt
  have after : w.start ≤ t ↔ d.day ≤ t.date.day := by
    change w.start.rank ≤ t.rank ↔ _
    simp only [start, Instant.rank, Instant.startOf, Calendar.TimeOfDay.midnight]
    omega
  have before : t < w.stop ↔ t.date.day ≤ d.day := by
    change t.rank < w.stop.rank ↔ _
    simp only [stop, Instant.rank, Instant.startOf, Calendar.TimeOfDay.midnight, follows]
    omega
  rw [holds, Bool.and_eq_true, decide_eq_true_iff, decide_eq_true_iff, after, before]
  constructor
  · intro both
    exact date_eq (Int.le_antisymm both.2 both.1)
  · rintro rfl
    exact ⟨Int.le_refl _, Int.le_refl _⟩

theorem ofDate_some (early : d < Date.greatest) : ∃ w, ofDate d = .ok w := by
  have within : d.day + 1 ≤ Calendar.maxDay := early
  have least := d.inRange.1
  have next : d.next? = some ⟨d.day + 1, by omega, within⟩ := dif_pos ⟨by omega, within⟩
  unfold ofDate
  split
  · exact ⟨_, rfl⟩
  · next none =>
    rw [next] at none
    cases none

theorem ofDate_early (day : ofDate d = .ok w) : d < Date.greatest := by
  obtain ⟨-, e, next, -⟩ := ofDate_bounds day
  have follows := next_day next
  have within := e.inRange.2
  change d.day < Calendar.maxDay
  omega

end Window

namespace MemoryLedger

def recordsOn (d : Date) (rs : List Record) (campaign : Int) : List Record :=
  rs.filter fun r => decide (r.createdAt.date = d) && r.campaign == campaign

def dayRow (d : Date) (rs : List Record) (campaign : Int) : DailyStat :=
  ⟨campaign, d, successesOf (recordsOn d rs campaign), failsOf (recordsOn d rs campaign)⟩

theorem recordsIn_day {d : Date} {w : Window} (day : Window.ofDate d = .ok w) (rs : List Record) (campaign : Int) :
    recordsIn w rs campaign = recordsOn d rs campaign := by
  refine List.filter_congr ?_
  intro r _
  rw [Bool.eq_iff_iff.mpr ((Window.holds_ofDate day r.createdAt).trans decide_eq_true_iff.symm)]

theorem dailyRow_day {d : Date} {w : Window} (day : Window.ofDate d = .ok w) (rs : List Record) (campaign : Int) :
    dailyRow w rs campaign = dayRow d rs campaign := by
  rw [dailyRow, dayRow, recordsIn_day day, Window.ofDate_date day]

/-- Nothing stands in the way of writing totals. -/
structure Unhindered (l : MemoryLedger) : Prop where
  present : l.mishaps.totalsAway = false
  free : l.mishaps.lockedTotals = []

end MemoryLedger

end Ledger

namespace Aggregation

open Ledger (MemoryLedger Record StatKey DailyStat Window Table)
open Ledger.MemoryLedger

structure DateRun where
  job : Job
  now : Instant
  date : Date

def DateRun.ledger (x : DateRun) (l : MemoryLedger) : MemoryLedger := (x.job.runForDate totals x.now l x.date).2.1

def runDates (l : MemoryLedger) (runs : List DateRun) : MemoryLedger := runs.foldl (fun l x => x.ledger l) l

variable {l : MemoryLedger}

theorem ledger_ok (h : Unhindered l) {x : DateRun} {w : Window} (day : Window.ofDate x.date = .ok w) :
    x.ledger l = (l.writeTotals w none).1 := by
  rw [DateRun.ledger, Job.runForDate, day]
  exact Job.aggregate_free h.present h.free x.now x.job .scheduled

theorem ledger_error {x : DateRun} {f : Ledger.WindowFault} (day : Window.ofDate x.date = .error f) :
    x.ledger l = l := by
  rw [DateRun.ledger, Job.runForDate, day]

theorem ledger_apart (h : Unhindered l) (x : DateRun) : x.ledger l = { l with stats := (x.ledger l).stats } := by
  cases day : Window.ofDate x.date with
  | error f => rw [ledger_error day]
  | ok w =>
    rw [ledger_ok h day]
    exact (called l w none).apart

theorem ledger_row (h : Unhindered l) (x : DateRun) (campaign : Int) (d : Date) :
    (x.ledger l).stats.get? ⟨campaign, d⟩ =
      if d = x.date ∧ d < Date.greatest ∧ recordsOn d l.records campaign ≠ [] then some (dayRow d l.records campaign)
      else l.stats.get? ⟨campaign, d⟩ := by
  cases day : Window.ofDate x.date with
  | error f =>
    have last : ¬ x.date < Date.greatest := by
      intro early
      obtain ⟨w, some_day⟩ := Window.ofDate_some early
      rw [day] at some_day
      cases some_day
    rw [ledger_error day, if_neg]
    rintro ⟨rfl, early, -⟩
    exact last early
  | ok w =>
    have passed : (l.writeTotals w none).2 = .ok _ :=
      congrArg Prod.snd (writeTotals_passes (by rw [Job.totalsFault_all h.present, if_pos h.free]))
    rw [ledger_ok h day]
    split
    · next own =>
      obtain ⟨rfl, -, met⟩ := own
      rw [← recordsIn_day day] at met
      rw [stats_bears ⟨⟨_, passed⟩, Window.ofDate_date day, Or.inl rfl, met⟩, dailyRow_day day]
    · next other =>
      refine stats_unborne ?_
      intro bears
      obtain rfl : x.date = d := (Window.ofDate_date day).symm.trans bears.dated
      have met := bears.met
      rw [recordsIn_day day] at met
      exact other ⟨rfl, Window.ofDate_early day, met⟩

theorem ascending_ledger (h : Unhindered l) (ascending : l.stats.Ascending) (x : DateRun) :
    (x.ledger l).stats.Ascending := by
  cases day : Window.ofDate x.date with
  | error f => rwa [ledger_error day]
  | ok w =>
    rw [ledger_ok h day]
    exact ascending_writeTotals ascending w none

theorem unhindered_ledger (h : Unhindered l) (x : DateRun) : Unhindered (x.ledger l) := by
  rw [ledger_apart h x]
  exact ⟨h.present, h.free⟩

theorem records_ledger (h : Unhindered l) (x : DateRun) : (x.ledger l).records = l.records := by
  rw [ledger_apart h x]

theorem runDates_apart (h : Unhindered l) (runs : List DateRun) :
    runDates l runs = { l with stats := (runDates l runs).stats } := by
  induction runs generalizing l with
  | nil => rfl
  | cons x runs ih =>
    have rest := ih (unhindered_ledger h x)
    rw [ledger_apart h x] at rest
    change runDates (x.ledger l) runs = { l with stats := (runDates (x.ledger l) runs).stats }
    rw [ledger_apart h x]
    exact rest

theorem ascending_runDates (h : Unhindered l) (ascending : l.stats.Ascending) (runs : List DateRun) :
    (runDates l runs).stats.Ascending := by
  induction runs generalizing l with
  | nil => exact ascending
  | cons x runs ih => exact ih (unhindered_ledger h x) (ascending_ledger h ascending x)

/-- However many runs there are for a date, its rows are those of one. -/
theorem runDates_row (h : Unhindered l) (runs : List DateRun) (campaign : Int) (d : Date) :
    (runDates l runs).stats.get? ⟨campaign, d⟩ =
      if d ∈ runs.map DateRun.date ∧ d < Date.greatest ∧ recordsOn d l.records campaign ≠ [] then
        some (dayRow d l.records campaign)
      else l.stats.get? ⟨campaign, d⟩ := by
  induction runs generalizing l with
  | nil => simp [runDates]
  | cons x runs ih =>
    change (runDates (x.ledger l) runs).stats.get? ⟨campaign, d⟩ = _
    rw [ih (unhindered_ledger h x), records_ledger h x, ledger_row h]
    by_cases counted : d < Date.greatest ∧ recordsOn d l.records campaign ≠ []
    · by_cases own : d = x.date
      · subst own
        simp [counted]
      · simp [counted, own]
    · simp [counted]

theorem countP_by_key {α κ : Type} [DecidableEq κ] (key : α → κ) (p : α → Bool) {ks : List κ} (distinct : ks.Nodup)
    {xs : List α} (within : ∀ x ∈ xs, key x ∈ ks) :
    xs.countP p = (ks.map fun k => (xs.filter fun x => decide (key x = k)).countP p).sum := by
  induction ks generalizing xs with
  | nil =>
    cases xs with
    | nil => rfl
    | cons x xs => cases within x List.mem_cons_self
  | cons k ks ih =>
    obtain ⟨fresh, rest⟩ := List.nodup_cons.mp distinct
    have later : ∀ x ∈ xs.filter (fun x => !decide (key x = k)), key x ∈ ks := by
      intro x member
      obtain ⟨there, other⟩ := List.mem_filter.mp member
      exact (List.mem_cons.mp (within x there)).resolve_left (by simpa using other)
    have same : ∀ l ∈ ks, (xs.filter fun x => !decide (key x = k)).filter (fun x => decide (key x = l)) =
        xs.filter fun x => decide (key x = l) := by
      intro l member
      have apart : l ≠ k := fun own => fresh (own ▸ member)
      rw [List.filter_filter]
      refine List.filter_congr fun x _ => ?_
      by_cases own : key x = l <;> simp [own, apart]
    rw [List.map_cons, List.sum_cons, ← List.map_congr_left fun l member => congrArg (List.countP p) (same l member),
      ← ih rest later]
    exact List.countP_eq_countP_filter_add xs p _

def rowsOf (l : MemoryLedger) (campaign : Int) : List DailyStat := l.stats.values.filter (·.campaign == campaign)

/-- The rows of a campaign have each its own date, with the numbers of that date; each record has a row. -/
structure RowsByDay (rows : List DailyStat) (rs : List Record) (campaign : Int) : Prop where
  distinct : (rows.map DailyStat.date).Nodup
  row : ∀ row ∈ rows, row = dayRow row.date rs campaign ∧ recordsOn row.date rs campaign ≠ []
  within : ∀ r ∈ rs, r.campaign = campaign → r.createdAt.date ∈ rows.map DailyStat.date

theorem runDates_key (h : Unhindered l) (empty : l.stats = []) {runs : List DateRun} {k : StatKey} {row : DailyStat}
    (member : (k, row) ∈ (runDates l runs).stats) :
    row = dayRow k.date l.records k.campaign ∧ recordsOn k.date l.records k.campaign ≠ [] := by
  have ascending := ascending_runDates h (by rw [empty]; exact .nil) runs
  have there := Table.get?_of_mem ascending member
  rw [runDates_row h, empty] at there
  split at there
  · next counted => exact ⟨(Option.some.inj there).symm, counted.2.2⟩
  · cases there

theorem mem_rowsOf (h : Unhindered l) (empty : l.stats = []) {runs : List DateRun} {campaign : Int} {row : DailyStat}
    (member : row ∈ rowsOf (runDates l runs) campaign) :
    ((⟨campaign, row.date⟩ : StatKey), row) ∈ (runDates l runs).stats := by
  obtain ⟨there, own⟩ := List.mem_filter.mp member
  obtain ⟨⟨k, row'⟩, in_table, rfl⟩ := List.mem_map.mp there
  obtain ⟨same, -⟩ := runDates_key h empty in_table
  have key : (⟨campaign, row'.date⟩ : StatKey) = k := by
    rw [← beq_iff_eq.mp own, same]
    rfl
  exact key ▸ in_table

theorem rowsByDay (h : Unhindered l) (empty : l.stats = []) {runs : List DateRun}
    (early : ∀ r ∈ l.records, r.createdAt.date < Date.greatest)
    (covered : ∀ r ∈ l.records, r.createdAt.date ∈ runs.map DateRun.date) (campaign : Int) :
    RowsByDay (rowsOf (runDates l runs) campaign) l.records campaign := by
  constructor
  · have ascending := ascending_runDates h (by rw [empty]; exact .nil) runs
    have table := List.Nodup.of_map Prod.fst (Table.keys_nodup ascending)
    have rows : (rowsOf (runDates l runs) campaign).Nodup := by
      refine List.Nodup.filter _ (List.Nodup.map_on ?_ table)
      rintro ⟨k, row⟩ member ⟨k', row'⟩ member' same
      obtain rfl : row = row' := same
      have both := (runDates_key h empty member).1.symm.trans (runDates_key h empty member').1
      have keys : k = k' := by
        cases k
        cases k'
        exact congrArg₂ StatKey.mk (congrArg DailyStat.campaign both) (congrArg DailyStat.date both)
      rw [keys]
    refine List.Nodup.map_on ?_ rows
    intro row member row' member' same
    rw [(runDates_key h empty (mem_rowsOf h empty member)).1, (runDates_key h empty (mem_rowsOf h empty member')).1, same]
  · intro row member
    exact runDates_key h empty (mem_rowsOf h empty member)
  · intro r member own
    have met : recordsOn r.createdAt.date l.records campaign ≠ [] :=
      List.ne_nil_of_mem (List.mem_filter.mpr ⟨member, by simp [own]⟩)
    have there := runDates_row h runs campaign r.createdAt.date
    rw [if_pos ⟨covered r member, early r member, met⟩] at there
    have in_values := List.mem_map_of_mem (f := Prod.snd) (Table.mem_of_get? there)
    exact List.mem_map_of_mem (f := DailyStat.date) (List.mem_filter.mpr ⟨in_values, by simp [dayRow]⟩)

variable {rows : List DailyStat} {rs : List Record} {campaign : Int}

theorem rows_sum (h : RowsByDay rows rs campaign) {f : DailyStat → Int} {p : Record → Bool}
    (counts : ∀ d, f (dayRow d rs campaign) = (recordsOn d rs campaign).countP p) :
    (rows.map f).sum = (rs.filter (·.campaign == campaign)).countP p := by
  have within : ∀ r ∈ rs.filter (·.campaign == campaign), r.createdAt.date ∈ rows.map DailyStat.date := by
    intro r member
    obtain ⟨there, own⟩ := List.mem_filter.mp member
    exact h.within r there (beq_iff_eq.mp own)
  rw [countP_by_key (fun r => r.createdAt.date) p h.distinct within, List.map_map, Nat.cast_list_sum, List.map_map]
  refine congrArg List.sum (List.map_congr_left ?_)
  intro row member
  rw [(h.row row member).1, counts]
  simp [recordsOn, List.filter_filter, dayRow]

theorem rows_none (h : RowsByDay rows rs campaign) (unrecorded : rs.filter (·.campaign == campaign) = []) : rows = [] := by
  refine List.eq_nil_iff_forall_not_mem.mpr ?_
  intro row member
  refine (h.row row member).2 (List.filter_eq_nil_iff.mpr ?_)
  intro r there both
  exact List.filter_eq_nil_iff.mp unrecorded r there (Bool.and_eq_true_iff.mp both).2

end Aggregation

end CampaignSettlement
