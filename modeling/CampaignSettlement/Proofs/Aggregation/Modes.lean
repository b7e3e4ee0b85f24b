import Mathlib.Data.Finset.Card
import Mathlib.Data.List.Sort
import CampaignSettlement.Aggregation.Job
import CampaignSettlement.Proofs.Ledger.Rows

/-!
The two ways of writing the totals of a window. Campaign by campaign, a run writes the same rows as the one
statement for all campaigns, but for those of the campaigns that are locked, which it names and leaves as they are.
-/
namespace CampaignSettlement

open Calendar (Date Instant)

namespace Ledger.MemoryLedger

variable {w : Window} {rs : List Record} {campaign : Int}

theorem get?_putUnits (rs : List Record) (t : Table Int Unit) (campaign : Int) :
    Table.get? campaign (rs.foldl (fun t r => t.put r.campaign ()) t) =
      if ∃ r ∈ rs, r.campaign = campaign then some () else t.get? campaign := by
  induction rs generalizing t with
  | nil => simp
  | cons r rs ih =>
    rw [List.foldl_cons, ih, Table.get?_put]
    by_cases here : campaign = r.campaign
    · simp [here]
    · simp [here, Ne.symm here]

theorem mem_campaignsIn : campaign ∈ campaignsIn w rs ↔ recordsIn w rs campaign ≠ [] := by
  rw [campaignsIn, Table.mem_keys, get?_putUnits]
  simp [Table.get?, recordsIn, List.filter_eq_nil_iff, and_assoc]

theorem ascending_keys {α : Type} {t : Table Int α} (ascending : t.Ascending) : t.keys.Pairwise (· < ·) :=
  List.Pairwise.map Prod.fst (fun _ _ order => compare_lt_iff_lt.mp order) ascending

theorem ascending_campaignsIn : (campaignsIn w rs).Pairwise (· < ·) := by
  refine ascending_keys ?_
  generalize rs.filter _ = covered
  have grown (t : Table Int Unit) (ascending : t.Ascending) :
      Table.Ascending (covered.foldl (fun t r => t.put r.campaign ()) t) := by
    induction covered generalizing t with
    | nil => exact ascending
    | cons r covered ih => exact ih _ (Table.ascending_put ascending r.campaign ())
  exact grown [] .nil

theorem campaignsIn_eq (w : Window) (rs : List Record) : campaignsIn w rs = (countIn w none rs).keys := by
  have counted : (countIn w none rs).keys.Pairwise (· < ·) := ascending_keys ascending_countIn
  refine List.Perm.eq_of_pairwise ?_ ascending_campaignsIn counted ?_
  · intro a b _ _ up down
    exact absurd (up.trans down) (lt_irrefl a)
  · refine (List.perm_ext_iff_of_nodup ascending_campaignsIn.nodup counted.nodup).mpr ?_
    intro campaign
    rw [mem_campaignsIn, mem_keys_countIn]
    simp [Covers]

def campaignsMet (w : Window) (rs : List Record) : Finset Int :=
  ((rs.filter fun r => w.holds r.createdAt).map Record.campaign).toFinset

theorem mem_campaignsMet : campaign ∈ campaignsMet w rs ↔ recordsIn w rs campaign ≠ [] := by
  simp [campaignsMet, recordsIn, List.filter_eq_nil_iff, and_assoc]

theorem length_campaignsIn (w : Window) (rs : List Record) :
    (campaignsIn w rs).length = (campaignsMet w rs).card := by
  rw [← List.toFinset_card_of_nodup ascending_campaignsIn.nodup]
  congr 1
  ext campaign
  rw [List.mem_toFinset, mem_campaignsIn, mem_campaignsMet]

theorem length_countIn (w : Window) (rs : List Record) : (countIn w none rs).length = (campaignsMet w rs).card := by
  rw [← length_campaignsIn, campaignsIn_eq, Table.keys, List.length_map]

theorem countIn_one {n : Count} (row : (campaign, n) ∈ countIn w none rs) :
    countIn w (some campaign) rs = [(campaign, n)] := by
  have whole := Table.get?_of_mem ascending_countIn row
  rw [get?_countIn] at whole
  refine Table.ext_get? ascending_countIn (List.pairwise_singleton _ _) ?_
  intro id
  rw [get?_countIn]
  by_cases own : campaign = id
  · subst own
    simpa [Covers, Table.get?] using whole
  · simp [Covers, Table.get?, own, Ne.symm own]

end Ledger.MemoryLedger

namespace Aggregation.Job

open Ledger (Window MemoryLedger Record Table StatKey DailyStat)
open Ledger.MemoryLedger

variable {l : MemoryLedger} {w : Window}

def Locked (l : MemoryLedger) (campaign : Int) : Bool := l.mishaps.lockedTotals.contains campaign

theorem totalsFault_one (here : l.mishaps.totalsAway = false) (campaign : Int) :
    l.totalsFault (some campaign) = if Locked l campaign then some (.unavailable "lock not available") else none := by
  simp [totalsFault, here, Locked]

theorem totalsFault_all (here : l.mishaps.totalsAway = false) :
    l.totalsFault none =
      if l.mishaps.lockedTotals = [] then none else some (.unavailable "lock not available") := by
  by_cases free : l.mishaps.lockedTotals = [] <;> simp [totalsFault, here, free]

theorem writeEach_counts (here : l.mishaps.totalsAway = false) {counts : Table Int Count}
    (alone : ∀ row ∈ counts, countIn w (some row.1) l.records = [row]) (t : Table StatKey DailyStat) :
    writeEach totals w (Table.keys counts) { l with stats := t } =
      ({ l with stats := (counts.filter (!Locked l ·.1)).foldl (putRow w) t },
        (counts.filter (!Locked l ·.1)).length, (Table.keys counts).filter (Locked l)) := by
  induction counts generalizing t with
  | nil => rfl
  | cons row counts ih =>
    obtain ⟨id, n⟩ := row
    have first : countIn w (some id) l.records = [(id, n)] := alone (id, n) List.mem_cons_self
    have rest : ∀ row ∈ counts, countIn w (some row.1) l.records = [row] :=
      fun row member => alone row (List.mem_cons_of_mem _ member)
    have fault := totalsFault_one here id
    rw [show Table.keys ((id, n) :: counts) = id :: Table.keys counts from rfl, writeEach]
    cases locked : Locked l id with
    | true =>
      rw [locked, if_pos rfl] at fault
      have fails : totals.write { l with stats := t } w (some id) = ({ l with stats := t }, .error _) :=
        writeTotals_fails fault
      simp only [fails, ih rest, locked, List.filter_cons, Bool.not_true, Bool.false_eq_true, if_true, if_false]
    | false =>
      rw [locked] at fault
      have passes : totals.write { l with stats := t } w (some id) =
          ({ l with stats := (countIn w (some id) l.records).foldl (putRow w) t },
            .ok (countIn w (some id) l.records).length) := writeTotals_passes fault
      rw [first] at passes
      simp only [passes, ih rest, locked, List.filter_cons, Bool.not_false, Bool.false_eq_true, if_true, if_false,
        List.foldl_cons, List.foldl_nil, List.length_cons, List.length_nil, Nat.zero_add, Nat.add_comm]

theorem runPerCampaign_all (here : l.mishaps.totalsAway = false) :
    runPerCampaign totals l none w =
      ({ l with stats := ((countIn w none l.records).filter (!Locked l ·.1)).foldl (putRow w) l.stats },
        .ok ⟨((countIn w none l.records).filter (!Locked l ·.1)).length, (campaignsMet w l.records).card,
          (campaignsIn w l.records).filter (Locked l)⟩) := by
  have found : totals.campaigns l w = (l, .ok (campaignsIn w l.records)) := by simp [totals, here]
  have alone : ∀ row ∈ countIn w none l.records, countIn w (some row.1) l.records = [row] :=
    fun row member => countIn_one member
  have each := writeEach_counts here alone l.stats
  rw [← campaignsIn_eq] at each
  simp only [runPerCampaign, found]
  rw [show writeEach totals w (campaignsIn w l.records) l = _ from each, length_campaignsIn]

theorem runSetBased_free (here : l.mishaps.totalsAway = false) (free : l.mishaps.lockedTotals = []) :
    runSetBased totals l none w =
      ((l.writeTotals w none).1, .ok ⟨(campaignsMet w l.records).card, (campaignsMet w l.records).card, []⟩) := by
  have passes : l.totalsFault none = none := by rw [totalsFault_all here, if_pos free]
  rw [writeTotals_passes passes, ← length_countIn]
  simp only [runSetBased, totals, writeTotals_passes passes]
  rfl

theorem runSetBased_locked (here : l.mishaps.totalsAway = false) (locked : l.mishaps.lockedTotals ≠ []) :
    runSetBased totals l none w = (l, .error (.unavailable "lock not available")) := by
  have fault : l.totalsFault none = some (.unavailable "lock not available") := by
    rw [totalsFault_all here, if_neg locked]
  simp only [runSetBased, totals, writeTotals_fails fault]
  rfl

theorem runPerCampaign_free (here : l.mishaps.totalsAway = false) (free : l.mishaps.lockedTotals = []) :
    runPerCampaign totals l none w = runSetBased totals l none w := by
  have passes : l.totalsFault none = none := by rw [totalsFault_all here, if_pos free]
  have none_locked : Locked l = fun _ => false := by
    funext campaign
    simp [Locked, free]
  rw [runPerCampaign_all here, runSetBased_free here free, writeTotals_passes passes, none_locked]
  simp [length_countIn]

theorem aggregate_free (here : l.mishaps.totalsAway = false) (free : l.mishaps.lockedTotals = []) (now : Instant)
    (j : Job) (trigger : Trigger) :
    (j.aggregate totals now l none w trigger).2.1 = (l.writeTotals w none).1 := by
  have whole := runSetBased_free (w := w) here free
  cases mode : j.mode <;> simp [aggregate, mode, runPerCampaign_free here free, whole]

structure Recorded (j j' : Job) (run : RunRecord) : Prop where
  kept : j' = j.keep run
  newest : 0 < j.history.capacity → j'.history.recent 1 = [run]

theorem recorded_keep (j : Job) (run : RunRecord) : Recorded j (j.keep run) run := by
  constructor
  · rfl
  · intro room
    exact History.recent_push j.history run 0 room

def inMode (j : Job) (mode : Mode) : Job := { j with mode }

def unlocked (l : MemoryLedger) : MemoryLedger := { l with mishaps := { l.mishaps with lockedTotals := [] } }

/-- The report of a run campaign by campaign, and what is recorded of it. -/
structure Accounted (l : MemoryLedger) (w : Window) (r : Report) (run : RunRecord) : Prop where
  ascending : r.failed.Pairwise (· < ·)
  failed : ∀ campaign, campaign ∈ r.failed ↔ campaign ∈ l.mishaps.lockedTotals ∧ campaign ∈ campaignsMet w l.records
  attempted : r.attempted = (campaignsMet w l.records).card
  rows : r.rows + r.failed.length = r.attempted
  outcome : run.outcome = if r.failed = [] then .completed else .partly
  agrees : run.rows = r.rows ∧ run.failed = r.failed

/-- How a run over all campaigns goes, on a ledger in memory, in the one mode and in the other. -/
structure Refines (j : Job) (now : Instant) (l : MemoryLedger) (w : Window) (trigger : Trigger) : Prop where
  /-- Campaigns that are not locked have the rows that one statement leaves when no campaign is. -/
  free : ∀ campaign, campaign ∉ l.mishaps.lockedTotals → ∀ d,
    ((j.inMode .perCampaign).aggregate totals now l none w trigger).2.1.stats.get? ⟨campaign, d⟩ =
      ((j.inMode .setBased).aggregate totals now (unlocked l) none w trigger).2.1.stats.get? ⟨campaign, d⟩
  locked : ∀ campaign, campaign ∈ l.mishaps.lockedTotals → ∀ d,
    ((j.inMode .perCampaign).aggregate totals now l none w trigger).2.1.stats.get? ⟨campaign, d⟩ =
      l.stats.get? ⟨campaign, d⟩
  accounted : let done := (j.inMode .perCampaign).aggregate totals now l none w trigger
    ∃ r run, done.2.2 = .ok r ∧ Recorded (j.inMode .perCampaign) done.1 run ∧ Accounted l w r run
  agree : l.mishaps.lockedTotals = [] →
    let each := (j.inMode .perCampaign).aggregate totals now l none w trigger
    let whole := (j.inMode .setBased).aggregate totals now l none w trigger
    each.2.1 = whole.2.1 ∧ ∃ r r', each.2.2 = .ok r ∧ whole.2.2 = .ok r' ∧
      r.rows = r'.rows ∧ r.attempted = r'.attempted ∧ r.failed = r'.failed
  refused : l.mishaps.lockedTotals ≠ [] →
    let whole := (j.inMode .setBased).aggregate totals now l none w trigger
    ∃ f run, whole.2.2 = .error (.store f) ∧ whole.2.1 = l ∧
      Recorded (j.inMode .setBased) whole.1 run ∧ run.outcome = .failed

theorem get?_free {counts : Table Int Count} (ascending : counts.Ascending) (campaign : Int) :
    Table.get? campaign (counts.filter (!Locked l ·.1)) =
      if Locked l campaign then none else Table.get? campaign counts := by
  have kept : Table.Ascending (counts.filter (!Locked l ·.1)) := List.Pairwise.filter _ ascending
  apply Option.ext
  intro n
  rw [← Table.mem_iff_get? kept, List.mem_filter, Table.mem_iff_get? ascending]
  cases Locked l campaign <;> simp

/-- Campaign by campaign, the rows of the locked campaigns stay, and all others are as one statement would leave
them. -/
theorem runPerCampaign_row (here : l.mishaps.totalsAway = false) (campaign : Int) (d : Date) :
    (runPerCampaign totals l none w).1.stats.get? ⟨campaign, d⟩ =
      if Locked l campaign then l.stats.get? ⟨campaign, d⟩
      else ((countIn w none l.records).foldl (putRow w) l.stats).get? ⟨campaign, d⟩ := by
  have kept : Table.Ascending ((countIn w none l.records).filter (!Locked l ·.1)) :=
    List.Pairwise.filter _ ascending_countIn
  rw [runPerCampaign_all here]
  simp only [get?_putRows kept, get?_putRows ascending_countIn, get?_free ascending_countIn]
  cases Locked l campaign <;> simp

def reportOf (mode : Mode) (only : Option Int) (w : Window) (trigger : Trigger) :
    Except Ledger.Fault Tally → Except Fault Report
  | .ok r => .ok ⟨w, only, mode, trigger, r.rows, r.attempted, r.failed⟩
  | .error f => .error (.store f)

def runIn {σ : Type} (mode : Mode) (t : Ledger.Totals σ) (s : σ) (only : Option Int) (w : Window) :
    σ × Except Ledger.Fault Tally :=
  match mode with
  | .setBased => runSetBased t s only w
  | .perCampaign => runPerCampaign t s only w

theorem aggregate_mode {σ : Type} (mode : Mode) (t : Ledger.Totals σ) (now : Instant) (j : Job) (s : σ)
    (only : Option Int) (w : Window) (trigger : Trigger) :
    (j.inMode mode).aggregate t now s only w trigger =
      let ran := runIn mode t s only w
      ((j.inMode mode).keep ((j.inMode mode).recordOf now only w trigger ran.2), ran.1,
        reportOf mode only w trigger ran.2) := by
  cases mode with
  | setBased =>
    simp only [aggregate, inMode, runIn]
    cases (runSetBased t s only w).2 <;> rfl
  | perCampaign =>
    simp only [aggregate, inMode, runIn]
    cases (runPerCampaign t s only w).2 <;> rfl

theorem accounted_each (j : Job) (now : Instant) (trigger : Trigger) {rows : Nat} {failed : List Int}
    (named : failed = (campaignsIn w l.records).filter (Locked l))
    (sum : rows + failed.length = (campaignsMet w l.records).card) :
    Accounted l w ⟨w, none, .perCampaign, trigger, rows, (campaignsMet w l.records).card, failed⟩
      (j.recordOf now none w trigger (.ok ⟨rows, (campaignsMet w l.records).card, failed⟩)) := by
  constructor
  · rw [named]
    exact List.Pairwise.filter _ ascending_campaignsIn
  · intro campaign
    simp [named, Locked, mem_campaignsIn, mem_campaignsMet, and_comm]
  · rfl
  · exact sum
  · simp [recordOf]
  · exact ⟨rfl, rfl⟩

/-- The stats store is there, and the writes of some campaigns may be locked. -/
theorem refines_set_based (here : l.mishaps.totalsAway = false) (j : Job) (now : Instant) (w : Window)
    (trigger : Trigger) : Refines j now l w trigger := by
  have each : runIn .perCampaign totals l none w = _ := runPerCampaign_all here
  have row := runPerCampaign_row (w := w) here
  constructor
  · intro campaign outside d
    have passes : (unlocked l).totalsFault none = none := totalsFault_all here
    have whole : runIn .setBased totals (unlocked l) none w = _ := runSetBased_free (l := unlocked l) here rfl
    rw [writeTotals_passes passes] at whole
    have free : Locked l campaign = false := by simpa [Locked] using outside
    rw [aggregate_mode, aggregate_mode, whole]
    exact (row campaign d).trans (by rw [free]; rfl)
  · intro campaign inside d
    have locked : Locked l campaign = true := by simpa [Locked] using inside
    rw [aggregate_mode]
    exact (row campaign d).trans (by rw [locked, if_pos rfl])
  · intro done
    have split : ((countIn w none l.records).filter (!Locked l ·.1)).length +
        ((campaignsIn w l.records).filter (Locked l)).length = (campaignsMet w l.records).card := by
      have parts := List.length_eq_length_filter_add (l := countIn w none l.records) (Locked l ·.1)
      rw [← length_campaignsIn, campaignsIn_eq, Table.keys, List.filter_map, List.length_map, List.length_map]
      exact (Nat.add_comm _ _).trans parts.symm
    have ran : done = _ := aggregate_mode .perCampaign totals now j l none w trigger
    rw [ran, each]
    exact ⟨_, _, rfl, recorded_keep _ _, accounted_each _ now trigger rfl split⟩
  · intro free
    have whole : runIn .setBased totals l none w = _ := runSetBased_free here free
    have same : runIn .perCampaign totals l none w = _ := (runPerCampaign_free here free).trans whole
    rw [aggregate_mode, aggregate_mode, same, whole]
    exact ⟨rfl, _, _, rfl, rfl, rfl, rfl, rfl⟩
  · intro locked
    have refused : runIn .setBased totals l none w = _ := runSetBased_locked here locked
    rw [aggregate_mode, refused]
    exact ⟨_, _, rfl, rfl, recorded_keep _ _, rfl⟩

def today : Date := ⟨20000, by decide⟩

def tomorrow : Date := ⟨20001, by decide⟩

def wholeDay : Window := ⟨.startOf today, .startOf tomorrow, by decide⟩

def secondLocked : MemoryLedger where
  records := [⟨1, 3, 7, "FAIL", none, none, none, none, .startOf today⟩,
    ⟨2, 1, 8, "SUCCESS", none, none, none, none, .startOf today⟩,
    ⟨3, 2, 9, "SUCCESS", none, none, none, none, .startOf today⟩]
  stats := [(⟨2, today⟩, ⟨2, today, 4, 4⟩)]
  mishaps := { lockedTotals := [9, 2] }

theorem refines_set_based_second :
    secondLocked.mishaps.totalsAway = false ∧
    (((Job.ofSettings .perCampaign 365 3).aggregate totals (.startOf today) secondLocked none wholeDay
      .scheduled).2.1.stats.values = [⟨1, today, 1, 0⟩, ⟨2, today, 4, 4⟩, ⟨3, today, 0, 1⟩]) ∧
    Refines (Job.ofSettings .perCampaign 365 3) (.startOf today) secondLocked wholeDay .scheduled :=
  ⟨rfl, by decide +kernel, refines_set_based rfl _ _ _ _⟩

end Aggregation.Job

end CampaignSettlement
