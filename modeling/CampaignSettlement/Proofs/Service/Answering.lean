import CampaignSettlement.Proofs.Analysis.Counting
import CampaignSettlement.Proofs.Calendar.Days
import CampaignSettlement.Proofs.Ledger.Queries
import CampaignSettlement.Service.Analytics

/-!
Requests that end without a response. Over tables that keep their constraints, arithmetic leaves its range in two places
alone: six days are taken from the end of a range too early for that, or more records are analysed than the product under
the number of their pairs has room for. Every other request is answered.
-/
namespace CampaignSettlement

open Calendar (Date Instant)
open Ledger (Campaign DailyStat SqlLedger Statement StatusCounts Tables)
open Number (Overflow int64)

namespace Ledger

/-- What the columns of the tables and their constraints promise of the numbers that are added up. -/
structure Tables.Sound (t : Tables) : Prop where
  stock : ∀ id c, t.campaigns.get? id = some c →
    0 ≤ c.currentStock ∧ c.currentStock ≤ c.totalStock ∧ int64.holds c.totalStock = true
  stats : ∀ s ∈ t.stats.values, int64.holds (s.successes + s.fails) = true
  records : ∀ id, int64.holds ((t.statusCounts id).successes + (t.statusCounts id).fails) = true

theorem Campaign.usagePercent_ok {c : Campaign} (least : 0 ≤ c.currentStock) (most : c.currentStock ≤ c.totalStock)
    (fits : int64.holds c.totalStock = true) : ∃ x, c.usagePercent = .ok x := by
  have used : int64.holds (c.totalStock - c.currentStock) = true := by
    rw [Number.Range.holds_iff] at fits ⊢
    simp only [int64] at fits ⊢
    omega
  unfold usagePercent
  split
  · exact ⟨_, rfl⟩
  · rw [Number.sub64, if_pos used]
    exact ⟨_, rfl⟩

theorem DailyStat.view_ok {s : DailyStat} (fits : int64.holds (s.successes + s.fails) = true) : ∃ v, s.view = .ok v := by
  have total : s.total = .ok (s.successes + s.fails) := if_pos fits
  simp only [view, successPercent, total]
  exact ⟨_, rfl⟩

end Ledger

namespace Aggregation

theorem add_six_none_iff (d : Date) : d.add? (-6) = none ↔ d.day < Calendar.minDay + 6 := by
  have most := d.inRange.2
  unfold Date.add? Date.ofDay?
  split
  · next within =>
    apply iff_of_false
    · intro none
      cases none
    · omega
  · next outside =>
    apply iff_of_true rfl
    omega

/-- The six days before the end are worked out whether a start is given or not. -/
theorem resolve_overflow_iff (start stop : Option Date) (today : Date) :
    (∃ o, DateRange.resolve start stop today = .error (.overflow o)) ↔
      (stop.getD today).day < Calendar.minDay + 6 := by
  rw [← add_six_none_iff]
  unfold DateRange.resolve
  dsimp only
  cases limit : (stop.getD today).add? (-6) with
  | none => exact iff_of_true ⟨_, rfl⟩ rfl
  | some default =>
    constructor
    · rintro ⟨o, overflow⟩
      dsimp only at overflow
      split at overflow <;> cases overflow
    · intro none
      cases none

theorem late_of_year {d : Date} (year : 0 ≤ d.year) : ¬d.day < Calendar.minDay + 6 := by
  have begun := (Date.yearOf_bounds d.day).1
  have least : Calendar.minDay = -96465292 := by decide
  change 0 ≤ Date.yearOf d.day at year
  simp only [Calendar.yearStart] at begun
  omega

end Aggregation

namespace Service.Analytics

open Aggregation (DateRange)
open Http (Problem Request Response Route)

def Answers (x : Desk × Except Overflow Response) : Prop := ∃ response, x.2 = .ok response

/-- Both questions to the database are answered, and with more records than their pairs can be counted for. -/
def Crowded (db : SqlLedger) (id : Int) : Prop :=
  ∃ c rs, (requireCampaign db id).2 = .ok c ∧ ((requireCampaign db id).1.recordsOf id).2 = .ok rs ∧
    2 ^ 32 < (Analysis.arrivals rs).length

/-- The requests for which arithmetic leaves its range. -/
inductive OutOfRange (db : SqlLedger) (q : Request) : Prop
  | early {raw : String} {id : Int} {range : RangeDraft} {last : Date}
      (routed : Route.resolve routes q = .ok (.campaignTotals, raw)) (number : Http.pathNumber raw = .ok id)
      (query : rangeQuery q = .ok range) (stop : range.stop = some last) (early : last.day < Calendar.minDay + 6)
  | crowded {raw : String} {id : Int} (routed : Route.resolve routes q = .ok (.orderAnalysis, raw))
      (number : Http.pathNumber raw = .ok id) (crowded : Crowded db id)

variable {db : SqlLedger} {id : Int}

theorem orderAnalysis_ok_iff (sampleLimit : Nat) :
    (∃ v, (orderAnalysis db sampleLimit id).2 = .ok v) ↔ ¬Crowded db id := by
  unfold orderAnalysis Crowded
  generalize requireCampaign db id = required
  obtain ⟨db', campaign⟩ := required
  cases campaign with
  | error p =>
    apply iff_of_true ⟨_, rfl⟩
    rintro ⟨c, rs, found, -⟩
    cases found
  | ok c =>
    dsimp only
    generalize db'.recordsOf id = found
    obtain ⟨db'', records⟩ := found
    cases records with
    | error f =>
      apply iff_of_true ⟨_, rfl⟩
      rintro ⟨c, rs, -, read, -⟩
      cases read
    | ok rs =>
      have room := Analysis.analyzeInRange_answers rs sampleLimit
      dsimp only
      constructor
      · rintro ⟨v, answered⟩ ⟨c', rs', -, read, many⟩
        cases read
        cases analysed : Analysis.analyzeInRange rs sampleLimit with
        | error o =>
          rw [analysed] at answered
          cases answered
        | ok a =>
          have few := room.mp ⟨a, analysed⟩
          omega
      · intro few
        have fits : (Analysis.arrivals rs).length ≤ 2 ^ 32 := by
          by_contra many
          exact few ⟨c, rs, rfl, rfl, Nat.lt_of_not_le many⟩
        obtain ⟨a, analysed⟩ := room.mpr fits
        rw [analysed]
        exact ⟨_, rfl⟩

theorem tables_requireCampaign (db : SqlLedger) (id : Int) : (requireCampaign db id).1.tables = db.tables :=
  db.tables_pass .campaign

theorem requireCampaign_ok {c : Campaign} (found : (requireCampaign db id).2 = .ok c) :
    db.tables.campaigns.get? id = some c := by
  have known {campaign : Option Campaign} (answered : (db.fetchCampaign id).2 = .ok campaign) :
      campaign = db.tables.fetchCampaign id := SqlLedger.query_ok answered
  unfold requireCampaign at found
  generalize db.fetchCampaign id = answered at found known
  obtain ⟨db', campaign⟩ := answered
  dsimp only at found known
  split at found
  · cases found
  · cases found
  · next c' =>
    cases found
    exact (known rfl).symm

theorem campaignStatus_ok (sound : db.tables.Sound) (id : Int) : ∃ v, (campaignStatus db id).2 = .ok v := by
  have kept := tables_requireCampaign db id
  have known {c : Campaign} (found : (requireCampaign db id).2 = .ok c) := requireCampaign_ok found
  unfold campaignStatus
  generalize requireCampaign db id = required at kept known
  obtain ⟨db', campaign⟩ := required
  cases campaign with
  | error p => exact ⟨_, rfl⟩
  | ok c =>
    have counted {n : StatusCounts} (answered : (db'.statusCounts id).2 = .ok n) : n = db.tables.statusCounts id := by
      rw [← kept]
      exact SqlLedger.query_ok answered
    dsimp only at kept known ⊢
    generalize db'.statusCounts id = answered at counted
    obtain ⟨db'', counts⟩ := answered
    cases counts with
    | error f => exact ⟨_, rfl⟩
    | ok n =>
      obtain ⟨least, most, fits⟩ := sound.stock id c (known rfl)
      obtain ⟨usage, used⟩ := Campaign.usagePercent_ok (c := { c with id }) least most fits
      have total : Number.add64 n.successes n.fails = .ok (n.successes + n.fails) := by
        rw [counted rfl]
        exact if_pos (sound.records id)
      simp only [statusView, used, total]
      exact ⟨_, rfl⟩

theorem viewAll_ok {stats : List DailyStat} (fit : ∀ s ∈ stats, int64.holds (s.successes + s.fails) = true) :
    ∃ vs, viewAll stats = .ok vs := by
  induction stats with
  | nil => exact ⟨[], rfl⟩
  | cons s stats ih =>
    obtain ⟨v, first⟩ := DailyStat.view_ok (fit s (by simp))
    obtain ⟨vs, rest⟩ := ih (fun s' member => fit s' (by simp [member]))
    simp only [viewAll, first, rest]
    exact ⟨_, rfl⟩

theorem totalsView_ok (sound : db.tables.Sound) {statement : Statement} {p : DailyStat → Bool} :
    ∃ v, totalsView (db.query statement fun t => t.stats.values.filter p).2 = .ok v := by
  have picked {stats : List DailyStat} (answered : (db.query statement fun t => t.stats.values.filter p).2 = .ok stats) :
      stats = db.tables.stats.values.filter p := SqlLedger.query_ok answered
  generalize (db.query statement fun t => t.stats.values.filter p).2 = rows at picked
  cases rows with
  | error f => exact ⟨_, rfl⟩
  | ok stats =>
    have fit : ∀ s ∈ stats, int64.holds (s.successes + s.fails) = true := by
      rw [picked rfl]
      intro s member
      exact sound.stats s (List.mem_filter.mp member).1
    obtain ⟨vs, shown⟩ := viewAll_ok fit
    rw [totalsView, shown]
    exact ⟨_, rfl⟩

theorem campaignTotals_ok_iff (sound : db.tables.Sound) {today : Date} (year : 0 ≤ today.year) (range : RangeDraft) :
    (∃ v, (campaignTotals db today id range).2 = .ok v) ↔
      ¬∃ last, range.stop = some last ∧ last.day < Calendar.minDay + 6 := by
  have overflow := Aggregation.resolve_overflow_iff range.start range.stop today
  have early : (range.stop.getD today).day < Calendar.minDay + 6 ↔
      ∃ last, range.stop = some last ∧ last.day < Calendar.minDay + 6 := by
    cases range.stop with
    | none => simp [Aggregation.late_of_year year]
    | some last => simp
  rw [← early, ← overflow]
  unfold campaignTotals
  cases DateRange.resolve range.start range.stop today with
  | error f =>
    cases f with
    | overflow o => simp
    | inverted => simp
  | ok dates =>
    apply iff_of_true
    · exact totalsView_ok sound
    · rintro ⟨o, none⟩
      cases none

section Responses

variable {α : Type} {now : Instant} {d : Desk} {q : Request}

theorem answers_withValue {v : Except Response α} {f : α → Desk × Except Overflow Response} :
    Answers (withValue d v f) ↔ ∀ a, v = .ok a → Answers (f a) := by
  cases v with
  | error response =>
    apply iff_of_true ⟨response, rfl⟩
    intro a none
    cases none
  | ok a =>
    constructor
    · intro answers b same
      cases same
      exact answers
    · intro all
      exact all a rfl

theorem answers_answeredOr {x : SqlLedger × Except Overflow (Except Problem Json.Value)} :
    Answers (answeredOr d x) ↔ ∃ v, x.2 = .ok v := by
  obtain ⟨db, v⟩ := x
  cases v with
  | error o =>
    apply iff_of_false
    · rintro ⟨response, none⟩
      cases none
    · rintro ⟨v, none⟩
      cases none
  | ok v => exact iff_of_true ⟨_, rfl⟩ ⟨v, rfl⟩

/-- The watch on errors has no part in it. -/
theorem answers_serve : Answers (serve now d q) ↔ Answers (handle now d q) := by
  unfold serve
  generalize handle now d q = handled
  obtain ⟨d', answer⟩ := handled
  cases answer with
  | error o =>
    apply iff_of_false
    · rintro ⟨response, none⟩
      cases none
    · rintro ⟨response, none⟩
      cases none
  | ok response => exact iff_of_true ⟨_, rfl⟩ ⟨response, rfl⟩

theorem not_answers_out (sound : d.books.database.tables.Sound) (year : 0 ≤ now.date.year)
    (out : OutOfRange d.books.database q) : ¬Answers (handle now d q) := by
  unfold handle
  dsimp only
  rw [answers_withValue]
  intro answers
  cases out with
  | early routed number query stop early =>
    have totals := answers _ routed
    dsimp only at totals
    rw [answers_withValue] at totals
    have ranged := totals _ number
    rw [answers_withValue] at ranged
    have shown := answers_answeredOr.mp (ranged _ query)
    exact (campaignTotals_ok_iff sound year _).mp shown ⟨_, stop, early⟩
  | crowded routed number crowded =>
    have analysis := answers _ routed
    dsimp only at analysis
    rw [answers_withValue] at analysis
    have shown := answers_answeredOr.mp (analysis _ number)
    exact (orderAnalysis_ok_iff _).mp shown crowded

theorem answers_handle (sound : d.books.database.tables.Sound) (year : 0 ≤ now.date.year)
    (within : ¬OutOfRange d.books.database q) : Answers (handle now d q) := by
  unfold handle
  dsimp only
  rw [answers_withValue]
  rintro ⟨endpoint, raw⟩ routed
  cases endpoint with
  | health => exact ⟨_, rfl⟩
  | metrics => exact ⟨_, rfl⟩
  | orderAnalysis =>
    rw [answers_withValue]
    intro id number
    rw [answers_answeredOr, orderAnalysis_ok_iff]
    exact fun crowded => within (.crowded routed number crowded)
  | status =>
    rw [answers_withValue]
    intro id _
    exact answers_answeredOr.mpr (campaignStatus_ok sound id)
  | aggregate =>
    rw [answers_withValue]
    exact fun request _ => ⟨_, rfl⟩
  | history =>
    rw [answers_withValue]
    exact fun limit _ => ⟨_, rfl⟩
  | daily =>
    rw [answers_withValue]
    intro date _
    exact answers_answeredOr.mpr (totalsView_ok sound)
  | campaignTotals =>
    rw [answers_withValue]
    intro id number
    rw [answers_withValue]
    intro range query
    rw [answers_answeredOr, campaignTotals_ok_iff sound year]
    rintro ⟨last, stop, early⟩
    exact within (.early routed number query stop early)
  | raw =>
    rw [answers_withValue]
    exact fun query _ => ⟨_, rfl⟩

/-- On any day of the years from 0 on. -/
theorem answered_iff_in_range (sound : d.books.database.tables.Sound) (year : 0 ≤ now.date.year) (q : Request) :
    (∃ response, (serve now d q).2 = .ok response) ↔ ¬OutOfRange d.books.database q := by
  change Answers (serve now d q) ↔ _
  rw [answers_serve]
  constructor
  · intro answers out
    exact not_answers_out sound year out answers
  · exact answers_handle sound year

end Responses

def fullTables : Tables where
  campaigns := [(1, ⟨1, "campaign-1", int64.high, 0, "OPEN", .startOf .least, .startOf .least⟩)]
  stats := [(⟨1, .least⟩, ⟨1, .least, int64.high, 0⟩)]

theorem sound_fullTables : fullTables.Sound := by
  constructor
  · intro id c found
    have row := List.mem_singleton.mp (Ledger.Table.mem_of_get? found)
    cases row
    decide
  · decide
  · intro id
    rfl

def fullDesk : Desk :=
  ⟨{ job := .ofSettings .setBased 30 3, sampleLimit := 100 }, { database := { tables := fullTables } }⟩

def today : Instant := .startOf ⟨20800, by decide⟩

def firstWeek : Request := ⟨"GET", "/stats/campaigns/1?start=-262143-01-01&end=-262143-01-07", [], []⟩

theorem answered_iff_in_range_first_week :
    fullDesk.books.database.tables.Sound ∧ 0 ≤ today.date.year ∧
      (serve today fullDesk firstWeek).2.toOption.map (·.status) = some 200 ∧
      ((∃ response, (serve today fullDesk firstWeek).2 = .ok response) ↔ ¬OutOfRange fullDesk.books.database firstWeek) := by
  have year : 0 ≤ today.date.year := by decide +kernel
  exact ⟨sound_fullTables, year, by decide +kernel, answered_iff_in_range sound_fullTables year firstWeek⟩

def firstDay : Request := ⟨"GET", "/stats/campaigns/1?start=-262143-01-01&end=-262143-01-01", [], []⟩

theorem first_day_unanswered :
    fullDesk.books.database.tables.Sound ∧ 0 ≤ today.date.year ∧ (serve today fullDesk firstDay).2 = .error .earlierDate := by
  have overflow : (match (serve today fullDesk firstDay).2 with
      | .error o => some o
      | .ok _ => none) = some Overflow.earlierDate := by decide +kernel
  refine ⟨sound_fullTables, by decide +kernel, ?_⟩
  cases answer : (serve today fullDesk firstDay).2 with
  | error o =>
    rw [answer] at overflow
    exact congrArg Except.error (Option.some.inj overflow)
  | ok response =>
    rw [answer] at overflow
    cases overflow

end Service.Analytics

end CampaignSettlement
