import Mathlib.Data.List.Induction
import CampaignSettlement.Ledger.Arming
import CampaignSettlement.Proofs.Ledger.Calls
import CampaignSettlement.Proofs.Ledger.Rows
import CampaignSettlement.Proofs.Lists

/-!
What a daily row means, over all that has happened to a ledger in memory. A row is there when a call for totals has
written it, and it has the numbers of the last call that did so, over that call's window and with the log as it
stood then. Rows are overwritten, never added to, so that a call made again with the same log changes nothing.
-/
namespace CampaignSettlement.Ledger

open Calendar (Date Instant)

inductive Event
  | launch (x : Launch)
  | settle (now : Instant) (c : StoreCall)
  | insert (r : Record)
  | write (w : Window) (only : Option Int)
  | arm (m : Mishaps)
  | pin (clock : Option Instant)

namespace MemoryLedger

def undergo (l : MemoryLedger) : Event → MemoryLedger
  | .launch x => l.addCampaign x.id x.stock x.time
  | .settle now c => (settle now l c).1
  | .insert r => l.insertRecord r
  | .write w only => (l.writeTotals w only).1
  | .arm m => { l with mishaps := m }
  | .pin clock => { l with clock }

def after (l : MemoryLedger) (es : List Event) : MemoryLedger := es.foldl undergo l

theorem after_snoc (l : MemoryLedger) (es : List Event) (e : Event) : l.after (es ++ [e]) = (l.after es).undergo e := by
  rw [after, List.foldl_append]
  rfl

theorem stats_undergo {l : MemoryLedger} {e : Event} (other : ∀ w only, e ≠ .write w only) :
    (l.undergo e).stats = l.stats := by
  cases e with
  | write w only => exact absurd rfl (other w only)
  | settle now c => exact (settle_apart now l c).1
  | _ => rfl

theorem totalsFault_undergo {l : MemoryLedger} {e : Event} (unarmed : ∀ m, e ≠ .arm m) :
    (l.undergo e).totalsFault = l.totalsFault := by
  cases e with
  | arm m => exact absurd rfl (unarmed m)
  | settle now c => exact (settle_apart now l c).2.1
  | write w only =>
    change (l.writeTotals w only).1.totalsFault = l.totalsFault
    rw [(called l w only).apart]
    rfl
  | _ => rfl

theorem totalsFault_after {l : MemoryLedger} {es : List Event} (unarmed : ∀ m, .arm m ∉ es) :
    (l.after es).totalsFault = l.totalsFault := by
  induction es generalizing l with
  | nil => rfl
  | cons e es ih =>
    have rest : ∀ m, .arm m ∉ es := fun m member => unarmed m (List.mem_cons_of_mem e member)
    exact (ih rest).trans (totalsFault_undergo fun m same => unarmed m (same ▸ List.mem_cons_self))

theorem records_undergo (l : MemoryLedger) (e : Event) : ∃ rs, (l.undergo e).records = l.records ++ rs := by
  cases e with
  | insert r => exact ⟨[r], rfl⟩
  | write w only =>
    have apart := congrArg MemoryLedger.records (called l w only).apart
    exact ⟨[], apart.trans (List.append_nil _).symm⟩
  | launch | arm | pin => exact ⟨[], (List.append_nil _).symm⟩
  | settle now c =>
    have effect := settle_effect now l c
    change ∃ rs, (settle now l c).1.holdings.records = l.holdings.records ++ rs
    generalize (settle now l c).1.holdings = k' at effect ⊢
    generalize (settle now l c).2 = r at effect
    cases effect with
    | committed created opened => exact ⟨_, rfl⟩
    | _ => exact ⟨[], (List.append_nil _).symm⟩

theorem records_after (l : MemoryLedger) (es : List Event) : ∃ rs, (l.after es).records = l.records ++ rs := by
  induction es generalizing l with
  | nil => exact ⟨[], (List.append_nil _).symm⟩
  | cons e es ih =>
    obtain ⟨first, here⟩ := records_undergo l e
    obtain ⟨rest, later⟩ := ih (l.undergo e)
    exact ⟨first ++ rest, by rw [← List.append_assoc, ← here]; exact later⟩

theorem ascending_undergo {l : MemoryLedger} (ascending : l.stats.Ascending) (e : Event) :
    (l.undergo e).stats.Ascending := by
  cases e with
  | write w only => exact ascending_writeTotals ascending w only
  | _ =>
    rw [stats_undergo (by simp)]
    exact ascending

theorem ascending_after {l : MemoryLedger} (ascending : l.stats.Ascending) (es : List Event) :
    (l.after es).stats.Ascending := by
  induction es generalizing l with
  | nil => exact ascending
  | cons e es ih => exact ih (ascending_undergo ascending e)

variable {l : MemoryLedger} {campaign : Int} {d : Date}

theorem bears_cases (l : MemoryLedger) (e : Event) (campaign : Int) (d : Date) :
    (∃ w only, e = .write w only ∧ Bears l w only campaign d) ∨
      ∀ w only, e = .write w only → ¬ Bears l w only campaign d := by
  by_cases writes : ∃ w only, e = .write w only ∧ Bears l w only campaign d
  · exact Or.inl writes
  · exact Or.inr fun w only same bears => writes ⟨w, only, same, bears⟩

theorem row_undergo {e : Event} (unborne : ∀ w only, e = .write w only → ¬ Bears l w only campaign d) :
    (l.undergo e).stats.get? ⟨campaign, d⟩ = l.stats.get? ⟨campaign, d⟩ := by
  cases e with
  | write w only => exact stats_unborne (unborne w only rfl)
  | _ => rw [stats_undergo (by simp)]

/-- A call among the events that writes the row of a campaign for a date. -/
def Borne (l : MemoryLedger) (es : List Event) (campaign : Int) (d : Date) : Prop :=
  ∃ before w only later, es = before ++ .write w only :: later ∧ Bears (l.after before) w only campaign d

/-- The last such call is for the window `w`, and it was made when the log stood at `rs`. -/
def LastBorne (l : MemoryLedger) (es : List Event) (campaign : Int) (d : Date) (w : Window) (rs : List Record) : Prop :=
  ∃ before only later, es = before ++ .write w only :: later ∧ Bears (l.after before) w only campaign d ∧
    rs = (l.after before).records ∧
    ∀ early w' only' late, later = early ++ .write w' only' :: late →
      ¬ Bears (l.after (before ++ .write w only :: early)) w' only' campaign d

theorem lastBorne_now {es : List Event} {w : Window} {only : Option Int} (bears : Bears (l.after es) w only campaign d) :
    LastBorne l (es ++ [.write w only]) campaign d w (l.after es).records := by
  refine ⟨es, only, [], rfl, bears, rfl, ?_⟩
  intro early w' only' late same
  exact absurd same.symm (by simp)

theorem lastBorne_unique {es : List Event} {w w' : Window} {only : Option Int} {rs : List Record}
    (bears : Bears (l.after es) w only campaign d) (last : LastBorne l (es ++ [.write w only]) campaign d w' rs) :
    w' = w ∧ rs = (l.after es).records := by
  obtain ⟨before, only', later, same, -, rfl, unborne⟩ := last
  rcases snoc_split same with ⟨rfl, final, -⟩ | ⟨early, rfl, rfl⟩
  · injection final with windows
    exact ⟨windows.symm, rfl⟩
  · exact absurd bears (unborne early w only [] rfl)

theorem lastBorne_snoc {es : List Event} {e : Event} {w : Window} {rs : List Record}
    (unborne : ∀ w only, e = .write w only → ¬ Bears (l.after es) w only campaign d) :
    LastBorne l (es ++ [e]) campaign d w rs ↔ LastBorne l es campaign d w rs := by
  constructor
  · rintro ⟨before, only, later, same, bears, log, last⟩
    rcases snoc_split same with ⟨rfl, final, -⟩ | ⟨early, rfl, rfl⟩
    · exact absurd bears (unborne w only final)
    · refine ⟨before, only, early, rfl, bears, log, ?_⟩
      rintro first w' only' late rfl
      exact last first w' only' (late ++ [e]) (by simp)
  · rintro ⟨before, only, later, rfl, bears, log, last⟩
    refine ⟨before, only, later ++ [e], by simp, bears, log, ?_⟩
    intro early w' only' late same
    rcases snoc_split same with ⟨rfl, final, -⟩ | ⟨middle, rfl, rfl⟩
    · exact unborne w' only' final
    · exact last early w' only' middle rfl

theorem get?_after (empty : l.stats = []) (es : List Event) (row : DailyStat) :
    (l.after es).stats.get? ⟨campaign, d⟩ = some row ↔
      ∃ w rs, LastBorne l es campaign d w rs ∧ row = dailyRow w rs campaign := by
  induction es using List.reverseRecOn generalizing row with
  | nil =>
    constructor
    · intro there
      change l.stats.get? ⟨campaign, d⟩ = some row at there
      rw [empty] at there
      cases there
    · rintro ⟨w, rs, ⟨before, only, later, same, -⟩, -⟩
      exact absurd same (by simp)
  | append_singleton es e ih =>
    rcases bears_cases (l.after es) e campaign d with ⟨w, only, rfl, bears⟩ | unborne
    · have now : (l.after (es ++ [.write w only])).stats.get? ⟨campaign, d⟩ =
          some (dailyRow w (l.after es).records campaign) := by
        rw [after_snoc]
        exact stats_bears bears
      rw [now, Option.some.injEq]
      constructor
      · rintro rfl
        exact ⟨w, _, lastBorne_now bears, rfl⟩
      · rintro ⟨w', rs, last, rfl⟩
        obtain ⟨rfl, rfl⟩ := lastBorne_unique bears last
        rfl
    · have kept : (l.after (es ++ [e])).stats.get? ⟨campaign, d⟩ = (l.after es).stats.get? ⟨campaign, d⟩ := by
        rw [after_snoc]
        exact row_undergo unborne
      simp only [kept, ih, lastBorne_snoc unborne]

theorem borne_last {es : List Event} : Borne l es campaign d ↔ ∃ w rs, LastBorne l es campaign d w rs := by
  constructor
  · induction es using List.reverseRecOn with
    | nil =>
      rintro ⟨before, w, only, later, same, -⟩
      exact absurd same (by simp)
    | append_singleton es e ih =>
      rintro ⟨before, w, only, later, same, bears⟩
      rcases bears_cases (l.after es) e campaign d with ⟨w', only', rfl, now⟩ | unborne
      · exact ⟨w', _, lastBorne_now now⟩
      · simp only [lastBorne_snoc unborne]
        rcases snoc_split same with ⟨rfl, final, -⟩ | ⟨early, rfl, rfl⟩
        · exact absurd bears (unborne w only final)
        · exact ih ⟨before, w, only, early, rfl, bears⟩
  · rintro ⟨w, rs, before, only, later, same, bears, -⟩
    exact ⟨before, w, only, later, same, bears⟩

/-- The table has the rows of the window with the log at `rs`. -/
def Shows (w : Window) (only : Option Int) (rs : List Record) (stats : Table StatKey DailyStat) : Prop :=
  ∀ campaign, Covers only campaign → recordsIn w rs campaign ≠ [] →
    stats.get? ⟨campaign, w.date⟩ = some (dailyRow w rs campaign)

/-- An event that writes no rows of the window's date, unless they are those of the window itself. -/
def Event.LeavesDate (w : Window) (e : Event) : Prop := ∀ w' only, e = .write w' only → w' = w ∨ w'.date ≠ w.date

theorem shows_written {w : Window} {only : Option Int} {n : Nat} (passed : (l.writeTotals w only).2 = .ok n) :
    Shows w only l.records (l.writeTotals w only).1.stats :=
  fun _ covers met => stats_bears ⟨⟨n, passed⟩, rfl, covers, met⟩

theorem shows_undergo {w : Window} {only : Option Int} {e : Event} (shows : Shows w only l.records l.stats)
    (leaves : Event.LeavesDate w e) : Shows w only l.records (l.undergo e).stats := by
  intro campaign covers met
  rcases bears_cases l e campaign w.date with ⟨w', only', rfl, bears⟩ | unborne
  · rcases leaves w' only' rfl with rfl | other
    · exact stats_bears bears
    · exact absurd bears.dated other
  · exact (row_undergo unborne).trans (shows campaign covers met)

theorem shows_after {w : Window} {only : Option Int} {rs : List Record} (shows : Shows w only rs l.stats)
    (log : l.records = rs) (between : List Event) (leaves : ∀ e ∈ between, Event.LeavesDate w e)
    (still : (l.after between).records = rs) : Shows w only rs (l.after between).stats := by
  induction between generalizing l with
  | nil => exact shows
  | cons e between ih =>
    obtain ⟨here, grown⟩ := records_undergo l e
    obtain ⟨rest, later⟩ := records_after (l.undergo e) between
    have unchanged : (l.undergo e).records = rs := by
      have whole : (l.undergo e).records ++ rest = rs := later.symm.trans still
      rw [grown, log, List.append_assoc] at whole
      have nothing : here ++ rest = [] := List.append_cancel_left (whole.trans (List.append_nil rs).symm)
      rw [grown, log, (List.append_eq_nil_iff.mp nothing).1, List.append_nil]
    have first : Shows w only rs (l.undergo e).stats := by
      rw [← log] at shows ⊢
      exact shows_undergo shows (leaves e List.mem_cons_self)
    exact ih first unchanged (fun x member => leaves x (List.mem_cons_of_mem e member)) still

theorem writeTotals_shown {w : Window} {only : Option Int} (ascending : l.stats.Ascending)
    (shows : Shows w only l.records l.stats) : (l.writeTotals w only).1 = l := by
  rw [(called l w only).apart]
  have same : (l.writeTotals w only).1.stats = l.stats := by
    refine Table.ext_get? (ascending_writeTotals ascending w only) ascending ?_
    rintro ⟨campaign, d⟩
    by_cases borne : Bears l w only campaign d
    · rw [stats_bears borne]
      obtain ⟨-, rfl, covers, met⟩ := borne
      exact (shows campaign covers met).symm
    · exact stats_unborne borne
  rw [same]

theorem writeTotals_count {w : Window} {only : Option Int} {n : Nat} (passed : (l.writeTotals w only).2 = .ok n) :
    n = (countIn w only l.records).length := by
  rw [writeTotals_passes (writeTotals_ok passed)] at passed
  injection passed with length
  exact length.symm

/-- A call that wrote `n` rows is made again at `l`, after the events `between`. -/
structure Repeated (w : Window) (only : Option Int) (n : Nat) (between : List Event) (l : MemoryLedger) : Prop where
  counts : ∀ m, (l.writeTotals w only).2 = .ok m → m = n
  passes : (∀ m, .arm m ∉ between) → (l.writeTotals w only).2 = .ok n
  leaves : (∀ e ∈ between, Event.LeavesDate w e) → (l.writeTotals w only).1 = l

theorem repeated_call {w : Window} {only : Option Int} (ascending : l.stats.Ascending) {n : Nat}
    (first : (l.writeTotals w only).2 = .ok n) (between : List Event)
    (still : ((l.writeTotals w only).1.after between).records = l.records) :
    Repeated w only n between ((l.writeTotals w only).1.after between) := by
  have log : (l.writeTotals w only).1.records = l.records := by
    rw [(called l w only).apart]
  have armed : (l.writeTotals w only).1.totalsFault = l.totalsFault := by
    rw [(called l w only).apart]
    rfl
  refine ⟨?_, ?_, ?_⟩
  · intro m again
    rw [writeTotals_count again, writeTotals_count first, still]
  · intro unarmed
    rw [writeTotals_passes, still, writeTotals_count first]
    rw [totalsFault_after unarmed, armed]
    exact writeTotals_ok first
  · intro leaves
    refine writeTotals_shown (ascending_after (ascending_writeTotals ascending w only) between) ?_
    rw [still]
    exact shows_after (shows_written first) log between leaves still

/-- What the daily rows of a ledger say after the events `es`. -/
structure TellsTotals (l : MemoryLedger) (es : List Event) : Prop where
  distinct : ((l.after es).stats.values.map fun row => (row.campaign, row.date)).Nodup
  present : ∀ campaign d, (∃ row ∈ (l.after es).stats.values, row.campaign = campaign ∧ row.date = d) ↔
    Borne l es campaign d
  meaning : ∀ row ∈ (l.after es).stats.values,
    ∃ w rs, LastBorne l es row.campaign row.date w rs ∧ row = dailyRow w rs row.campaign
  next : ∀ w only, Called (l.after es) w only
  again : ∀ w only n, ((l.after es).writeTotals w only).2 = .ok n → ∀ between,
    (((l.after es).writeTotals w only).1.after between).records = (l.after es).records →
      Repeated w only n between (((l.after es).writeTotals w only).1.after between)

theorem lastBorne_dated {es : List Event} {w : Window} {rs : List Record}
    (last : LastBorne l es campaign d w rs) : w.date = d := by
  obtain ⟨before, only, later, -, bears, -⟩ := last
  exact bears.dated

theorem row_key (empty : l.stats = []) {es : List Event} {k : StatKey} {row : DailyStat}
    (member : (k, row) ∈ (l.after es).stats) : k = ⟨row.campaign, row.date⟩ := by
  obtain ⟨campaign, d⟩ := k
  have ascending : (l.after es).stats.Ascending := ascending_after (by rw [empty]; exact .nil) es
  obtain ⟨w, rs, last, rfl⟩ := (get?_after empty es row).mp (Table.get?_of_mem ascending member)
  rw [← lastBorne_dated last]
  rfl

theorem totals_tell_history {l : MemoryLedger} (empty : l.stats = []) (es : List Event) : TellsTotals l es := by
  have ascending : (l.after es).stats.Ascending := ascending_after (by rw [empty]; exact .nil) es
  have at_key {row : DailyStat} (member : row ∈ (l.after es).stats.values) :
      (l.after es).stats.get? ⟨row.campaign, row.date⟩ = some row := by
    obtain ⟨⟨k, row'⟩, there, rfl⟩ := List.mem_map.mp member
    change (l.after es).stats.get? ⟨row'.campaign, row'.date⟩ = some row'
    rw [← row_key empty there]
    exact Table.get?_of_mem ascending there
  constructor
  · have keys : (l.after es).stats.values.map (fun row => StatKey.mk row.campaign row.date) =
        (l.after es).stats.keys := by
      rw [Table.values, Table.keys, List.map_map]
      exact List.map_congr_left fun row member => (row_key empty member).symm
    have nodup := Table.keys_nodup ascending
    rw [← keys] at nodup
    refine List.Nodup.of_map (fun p : Int × Date => StatKey.mk p.1 p.2) ?_
    rw [List.map_map]
    exact nodup
  · intro campaign d
    rw [borne_last]
    constructor
    · rintro ⟨row, member, rfl, rfl⟩
      obtain ⟨w, rs, last, -⟩ := (get?_after empty es row).mp (at_key member)
      exact ⟨w, rs, last⟩
    · rintro ⟨w, rs, last⟩
      have there := (get?_after empty es _).mpr ⟨w, rs, last, rfl⟩
      exact ⟨_, List.mem_map_of_mem (Table.mem_of_get? there), rfl, lastBorne_dated last⟩
  · intro row member
    exact (get?_after empty es row).mp (at_key member)
  · intro w only
    exact called (l.after es) w only
  · intro w only n first between still
    exact repeated_call ascending first between still

def saturday : Date := ⟨19000, by decide⟩

def sunday : Date := ⟨19001, by decide⟩

def noon : Instant :=
  ⟨saturday, { Calendar.TimeOfDay.midnight with second := 43200, second_lt := by decide, leap := by decide }⟩

def dusk : Instant :=
  ⟨saturday, { Calendar.TimeOfDay.midnight with second := 64800, second_lt := by decide, leap := by decide }⟩

def allDay : Window := ⟨.startOf saturday, .startOf sunday, by decide⟩

def longEvening : Window := ⟨noon, ⟨sunday, noon.time⟩, by decide⟩

def lateRecord : List Event :=
  [.launch ⟨1, 5, noon⟩, .settle noon .begin, .settle noon (.append 1 ⟨1, 7, .success, none, none, none, 1⟩),
    .settle (.startOf saturday) (.commit 1), .insert ⟨50, 2, 8, "PENDING", none, none, none, none, noon⟩,
    .write allDay none, .insert ⟨51, 1, 9, "FAIL", none, none, none, none, dusk⟩,
    .arm { lockedTotals := [1] }, .write longEvening (some 1), .arm {}, .write longEvening (some 1)]

theorem totals_tell_history_late :
    (({} : MemoryLedger).after lateRecord).stats.values = [⟨1, saturday, 0, 1⟩, ⟨2, saturday, 0, 0⟩] ∧
    TellsTotals {} lateRecord :=
  ⟨by decide +kernel, totals_tell_history rfl lateRecord⟩

end MemoryLedger

end CampaignSettlement.Ledger
