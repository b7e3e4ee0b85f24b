import CampaignSettlement.Ledger.Sql
import CampaignSettlement.Proofs.Aggregation.Modes

/-!
Totals by statement. The statements for the totals of a window come to what a ledger in memory comes to by running
counts: the same campaigns in the same order, the same rows, and the same number of them.
-/
namespace CampaignSettlement.Ledger

open Calendar (Date)
open MemoryLedger (Covers ascending_campaignsIn ascending_countIn ascending_keys ascending_putRows campaignsIn countIn
  covered_none covered_of dailyRow get?_countIn get?_putRows mem_campaignsIn mem_keys_countIn putRow recordsIn)

theorem nodup_eraseDups {α : Type} [BEq α] [LawfulBEq α] (as : List α) : as.eraseDups.Nodup := by
  induction length : as.length using Nat.strongRecOn generalizing as with
  | ind n ih =>
    cases as with
    | nil => exact .nil
    | cons a as =>
      rw [List.eraseDups_cons, List.nodup_cons]
      have shorter := List.length_filter_le (fun b => !b == a) as
      refine ⟨?_, ih _ (by rw [← length, List.length_cons]; omega) _ rfl⟩
      rw [List.mem_eraseDups, List.mem_filter]
      simp

namespace Tables

variable {t : Tables} {w : Window} {only : Option Int}

theorem campaignsIn_counts (t : Tables) (w : Window) : t.campaignsIn w = MemoryLedger.campaignsIn w t.records := by
  have distinct := nodup_eraseDups ((t.records.filter fun r => w.holds r.createdAt).map Record.campaign)
  have sorted : (t.campaignsIn w).Pairwise (· ≤ ·) := by
    refine (List.pairwise_mergeSort ?_ ?_ _).imp of_decide_eq_true
    · intro a b c first second
      exact decide_eq_true (Int.le_trans (of_decide_eq_true first) (of_decide_eq_true second))
    · intro a b
      simpa using Int.le_total a b
  have perm : (t.campaignsIn w).Perm (MemoryLedger.campaignsIn w t.records) := by
    refine (List.mergeSort_perm ..).trans ?_
    refine (List.perm_ext_iff_of_nodup distinct ascending_campaignsIn.nodup).mpr ?_
    intro campaign
    rw [List.mem_eraseDups, mem_campaignsIn]
    simp [recordsIn, List.filter_eq_nil_iff, and_assoc]
  refine perm.eq_of_pairwise ?_ sorted (ascending_campaignsIn.imp Int.le_of_lt)
  intro a b _ _ up down
  exact Int.le_antisymm up down

def met (t : Tables) (w : Window) (only : Option Int) : List Int :=
  ((t.records.filter fun r => w.holds r.createdAt && only.all (r.campaign == ·)).map Record.campaign).eraseDups

theorem mem_met {campaign : Int} :
    campaign ∈ t.met w only ↔ Covers only campaign ∧ recordsIn w t.records campaign ≠ [] := by
  rw [met, List.mem_eraseDups]
  have found (rs : List Record) : campaign ∈ rs.map Record.campaign ↔ rs.filter (·.campaign == campaign) ≠ [] := by
    simp [List.filter_eq_nil_iff]
  rw [found]
  by_cases covers : Covers only campaign
  · rw [covered_of campaign covers]
    simp [covers]
  · simp [covered_none covers, covers]

theorem totalsIn_rows (t : Tables) (w : Window) (only : Option Int) :
    t.totalsIn w only = (t.met w only).map (dailyRow w t.records) := by
  refine List.map_congr_left ?_
  intro campaign member
  obtain ⟨covers, -⟩ := mem_met.mp member
  rw [covered_of campaign covers]
  rfl

theorem length_totalsIn (t : Tables) (w : Window) (only : Option Int) :
    (t.totalsIn w only).length = (countIn w only t.records).length := by
  have distinct : (countIn w only t.records).keys.Nodup := (ascending_keys ascending_countIn).nodup
  have perm : (t.met w only).Perm (countIn w only t.records).keys := by
    refine (List.perm_ext_iff_of_nodup (nodup_eraseDups _) distinct).mpr ?_
    intro campaign
    exact mem_met.trans mem_keys_countIn.symm
  rw [totalsIn_rows, List.length_map, perm.length_eq, Table.keys, List.length_map]

def putStat (s : Table StatKey DailyStat) (row : DailyStat) : Table StatKey DailyStat :=
  s.put ⟨row.campaign, row.date⟩ row

theorem ascending_putStats {s : Table StatKey DailyStat} (ascending : s.Ascending) (rows : List DailyStat) :
    (rows.foldl putStat s).Ascending := by
  induction rows generalizing s with
  | nil => exact ascending
  | cons row rows ih => exact ih (Table.ascending_put ascending _ _)

theorem get?_putStats (rs : List Record) (ids : List Int) (s : Table StatKey DailyStat) (campaign : Int) (d : Date) :
    ((ids.map (dailyRow w rs)).foldl putStat s).get? ⟨campaign, d⟩ =
      if campaign ∈ ids ∧ d = w.date then some (dailyRow w rs campaign) else s.get? ⟨campaign, d⟩ := by
  induction ids generalizing s with
  | nil => simp
  | cons id ids ih =>
    rw [List.map_cons, List.foldl_cons, ih, putStat, Table.get?_put]
    by_cases own : campaign = id
    · subst own
      by_cases here : d = w.date <;> simp [dailyRow, here]
    · simp [dailyRow, own]

theorem upsert_counts {t : Tables} (ascending : t.stats.Ascending) (w : Window) (only : Option Int) :
    (t.upsert (t.totalsIn w only)).stats = (countIn w only t.records).foldl (putRow w) t.stats := by
  change (t.totalsIn w only).foldl putStat t.stats = _
  refine Table.ext_get? (ascending_putStats ascending _) (ascending_putRows ascending _) ?_
  rintro ⟨campaign, d⟩
  rw [totalsIn_rows, get?_putStats, get?_putRows ascending_countIn, get?_countIn]
  by_cases counted : Covers only campaign ∧ recordsIn w t.records campaign ≠ []
  · have member : campaign ∈ t.met w only := mem_met.mpr counted
    rw [if_pos counted]
    by_cases here : d = w.date <;> simp [member, here, dailyRow]
  · have absent : campaign ∉ t.met w only := fun member => counted (mem_met.mp member)
    rw [if_neg counted]
    simp [absent]

end Tables

end CampaignSettlement.Ledger
