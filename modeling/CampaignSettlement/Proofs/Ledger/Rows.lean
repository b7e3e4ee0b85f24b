import Mathlib.Data.List.Nodup
import CampaignSettlement.Ledger.Memory
import CampaignSettlement.Proofs.Ledger.Table

/-!
What a call for totals does to the daily rows. It writes one row for each campaign that it covers and that has a
record in its window, with the numbers of that campaign's records by result, and leaves all other rows alone.
-/
namespace CampaignSettlement.Ledger

open Calendar (Date Instant)

instance : Std.TransOrd StatKey :=
  inferInstanceAs (Std.TransCmp (compareLex (compareOn StatKey.campaign) (compareOn fun k => k.date.day)))

theorem date_eq {d e : Date} (same : d.day = e.day) : d = e := by
  cases d
  cases e
  simpa using same

instance : Std.LawfulEqOrd StatKey where
  eq_of_compare := by
    rintro ⟨c, d⟩ ⟨c', d'⟩ same
    obtain ⟨campaigns, days⟩ := Ordering.then_eq_eq.mp same
    obtain rfl : c = c' := Std.compare_eq_iff_eq.mp campaigns
    obtain rfl : d = d' := date_eq (Std.compare_eq_iff_eq.mp days)
    rfl

namespace MemoryLedger

variable {w : Window} {only : Option Int} {rs : List Record}

def recordsIn (w : Window) (rs : List Record) (campaign : Int) : List Record :=
  rs.filter fun r => w.holds r.createdAt && r.campaign == campaign

def successesOf (rs : List Record) : Nat := rs.countP (·.status == "SUCCESS")

def failsOf (rs : List Record) : Nat := rs.countP (·.status == "FAIL")

theorem successesOf_append (rs more : List Record) : successesOf (rs ++ more) = successesOf rs + successesOf more :=
  List.countP_append

theorem failsOf_append (rs more : List Record) : failsOf (rs ++ more) = failsOf rs + failsOf more :=
  List.countP_append

def dailyRow (w : Window) (rs : List Record) (campaign : Int) : DailyStat :=
  ⟨campaign, w.date, successesOf (recordsIn w rs campaign), failsOf (recordsIn w rs campaign)⟩

/-- A call for all campaigns covers each of them, and one for a single campaign covers that one. -/
def Covers (only : Option Int) (campaign : Int) : Prop := only = none ∨ only = some campaign

instance (only : Option Int) (campaign : Int) : Decidable (Covers only campaign) := inferInstanceAs (Decidable (_ ∨ _))

theorem add_result (n : Count) (r : Record) :
    n.add r = ⟨n.successes + successesOf [r], n.fails + failsOf [r]⟩ := by
  by_cases success : r.status = "SUCCESS"
  · simp [Count.add, Record.result?, Result.ofName?, Result.named, successesOf, failsOf, success]
  · by_cases fail : r.status = "FAIL"
    · simp [Count.add, Record.result?, Result.ofName?, Result.named, List.lookup_cons, successesOf, failsOf, fail]
    · have other : Result.ofName? r.status = none := by
        have unlike := beq_eq_false_iff_ne.mpr success
        have unlike' := beq_eq_false_iff_ne.mpr fail
        simp only [Result.ofName?, Result.named, List.lookup_cons, List.lookup_nil, unlike, unlike']
      simp [Count.add, Record.result?, other, successesOf, failsOf, success, fail]

theorem addAll_results (rs : List Record) (n : Count) :
    rs.foldl Count.add n = ⟨n.successes + successesOf rs, n.fails + failsOf rs⟩ := by
  induction rs generalizing n with
  | nil => simp [successesOf, failsOf]
  | cons r rs ih =>
    rw [List.foldl_cons, ih, add_result]
    have successes : successesOf (r :: rs) = successesOf [r] + successesOf rs := successesOf_append [r] rs
    have fails : failsOf (r :: rs) = failsOf [r] + failsOf rs := failsOf_append [r] rs
    simp only [successes, fails, Int.natCast_add, Int.add_assoc]

def addTo (t : Table Int Count) (r : Record) : Table Int Count :=
  t.put r.campaign (((t.get? r.campaign).getD ⟨0, 0⟩).add r)

theorem ascending_addAll {t : Table Int Count} (ascending : t.Ascending) : (rs.foldl addTo t).Ascending := by
  induction rs generalizing t with
  | nil => exact ascending
  | cons r rs ih => exact ih (Table.ascending_put ascending r.campaign _)

theorem get?_addAll (rs : List Record) (t : Table Int Count) (campaign : Int) :
    (rs.foldl addTo t).get? campaign =
      if rs.filter (·.campaign == campaign) = [] then t.get? campaign
      else some ((rs.filter (·.campaign == campaign)).foldl Count.add ((t.get? campaign).getD ⟨0, 0⟩)) := by
  induction rs generalizing t with
  | nil => rfl
  | cons r rs ih =>
    rw [List.foldl_cons, ih, addTo, Table.get?_put]
    by_cases own : r.campaign = campaign
    · subst own
      by_cases last : rs.filter (·.campaign == r.campaign) = []
      · simp [last]
      · simp [last]
    · simp [own, Ne.symm own]

theorem countIn_eq (w : Window) (only : Option Int) (rs : List Record) :
    countIn w only rs = (rs.filter fun r => w.holds r.createdAt && only.all (r.campaign == ·)).foldl addTo [] := rfl

theorem ascending_countIn : (countIn w only rs).Ascending := ascending_addAll .nil

theorem covered_of (campaign : Int) (covers : Covers only campaign) :
    (rs.filter fun r => w.holds r.createdAt && only.all (r.campaign == ·)).filter (·.campaign == campaign) =
      recordsIn w rs campaign := by
  rw [List.filter_filter, recordsIn]
  refine List.filter_congr ?_
  intro r _
  rcases covers with rfl | rfl <;> simp [Bool.and_comm]

theorem covered_none {campaign : Int} (outside : ¬ Covers only campaign) :
    (rs.filter fun r => w.holds r.createdAt && only.all (r.campaign == ·)).filter (·.campaign == campaign) = [] := by
  rw [List.filter_filter, List.filter_eq_nil_iff]
  intro r _ both
  cases only with
  | none => exact outside (Or.inl rfl)
  | some id =>
    simp only [Option.all_some, Bool.and_eq_true, beq_iff_eq] at both
    exact outside (Or.inr (congrArg some (both.2.2.symm.trans both.1)))

theorem get?_countIn (w : Window) (only : Option Int) (rs : List Record) (campaign : Int) :
    (countIn w only rs).get? campaign =
      if Covers only campaign ∧ recordsIn w rs campaign ≠ [] then
        some ⟨successesOf (recordsIn w rs campaign), failsOf (recordsIn w rs campaign)⟩
      else none := by
  rw [countIn_eq, get?_addAll]
  by_cases covers : Covers only campaign
  · rw [covered_of campaign covers]
    by_cases none_there : recordsIn w rs campaign = []
    · simp [none_there, Table.get?]
    · simp [covers, none_there, Table.get?, addAll_results]
  · simp [covered_none covers, covers, Table.get?]

theorem mem_keys_countIn {campaign : Int} :
    campaign ∈ (countIn w only rs).keys ↔ Covers only campaign ∧ recordsIn w rs campaign ≠ [] := by
  rw [Table.mem_keys, get?_countIn]
  split <;> simp_all

def putRow (w : Window) (t : Table StatKey DailyStat) (row : Int × Count) : Table StatKey DailyStat :=
  t.put ⟨row.1, w.date⟩ ⟨row.1, w.date, row.2.successes, row.2.fails⟩

theorem ascending_putRows {t : Table StatKey DailyStat} (ascending : t.Ascending) (counts : Table Int Count) :
    (counts.foldl (putRow w) t).Ascending := by
  induction counts generalizing t with
  | nil => exact ascending
  | cons row counts ih => exact ih (Table.ascending_put ascending _ _)

theorem get?_putRows {counts : Table Int Count} (ascending : counts.Ascending) (t : Table StatKey DailyStat)
    (campaign : Int) (d : Date) :
    (counts.foldl (putRow w) t).get? ⟨campaign, d⟩ =
      match counts.get? campaign with
      | some n => if d = w.date then some ⟨campaign, w.date, n.successes, n.fails⟩ else t.get? ⟨campaign, d⟩
      | none => t.get? ⟨campaign, d⟩ := by
  induction counts generalizing t with
  | nil => rfl
  | cons row counts ih =>
    obtain ⟨id, n⟩ := row
    obtain ⟨above, rest⟩ := List.pairwise_cons.mp ascending
    rw [List.foldl_cons, ih rest, putRow, Table.get?_put]
    by_cases own : campaign = id
    · subst own
      have fresh : Table.get? campaign counts = none := Table.get?_of_below above
      by_cases here : d = w.date <;> simp [fresh, here, Table.get?]
    · simp [own, Table.get?]

theorem writeTotals_eq (l : MemoryLedger) (w : Window) (only : Option Int) :
    l.writeTotals w only =
      match l.totalsFault only with
      | some f => (l, .error f)
      | none => ({ l with stats := (countIn w only l.records).foldl (putRow w) l.stats },
          .ok (countIn w only l.records).length) := rfl

theorem writeTotals_passes {l : MemoryLedger} (free : l.totalsFault only = none) :
    l.writeTotals w only =
      ({ l with stats := (countIn w only l.records).foldl (putRow w) l.stats },
        .ok (countIn w only l.records).length) := by
  rw [writeTotals_eq, free]

theorem writeTotals_fails {l : MemoryLedger} {f : Fault} (fault : l.totalsFault only = some f) :
    l.writeTotals w only = (l, .error f) := by
  rw [writeTotals_eq, fault]

theorem writeTotals_ok {l : MemoryLedger} {n : Nat} (passed : (l.writeTotals w only).2 = .ok n) :
    l.totalsFault only = none := by
  cases fault : l.totalsFault only with
  | none => rfl
  | some f =>
    rw [writeTotals_fails fault] at passed
    cases passed

/-- Made at `l`, the call writes the row of a campaign for a date. -/
structure Bears (l : MemoryLedger) (w : Window) (only : Option Int) (campaign : Int) (d : Date) : Prop where
  passes : ∃ n, (l.writeTotals w only).2 = .ok n
  dated : w.date = d
  covers : Covers only campaign
  met : recordsIn w l.records campaign ≠ []

theorem stats_bears {l : MemoryLedger} {campaign : Int} {d : Date} (bears : Bears l w only campaign d) :
    (l.writeTotals w only).1.stats.get? ⟨campaign, d⟩ = some (dailyRow w l.records campaign) := by
  obtain ⟨⟨n, passed⟩, dated, covers, met⟩ := bears
  rw [writeTotals_passes (writeTotals_ok passed)]
  simp only [get?_putRows ascending_countIn, get?_countIn, covers, met, dated, dailyRow, ne_eq, not_false_eq_true,
    and_self, if_true]

theorem stats_unborne {l : MemoryLedger} {campaign : Int} {d : Date} (unborne : ¬ Bears l w only campaign d) :
    (l.writeTotals w only).1.stats.get? ⟨campaign, d⟩ = l.stats.get? ⟨campaign, d⟩ := by
  cases fault : l.totalsFault only with
  | some f => rw [writeTotals_fails fault]
  | none =>
    rw [writeTotals_passes fault]
    simp only [get?_putRows ascending_countIn, get?_countIn]
    by_cases counted : Covers only campaign ∧ recordsIn w l.records campaign ≠ []
    · have elsewhere : d ≠ w.date := by
        rintro rfl
        exact unborne ⟨⟨_, by rw [writeTotals_passes fault]⟩, rfl, counted.1, counted.2⟩
      simp [counted, elsewhere]
    · simp [counted]

theorem ascending_writeTotals {l : MemoryLedger} (ascending : l.stats.Ascending) (w : Window) (only : Option Int) :
    (l.writeTotals w only).1.stats.Ascending := by
  cases fault : l.totalsFault only with
  | some f => rwa [writeTotals_fails fault]
  | none =>
    rw [writeTotals_passes fault]
    exact ascending_putRows ascending _

/-- What a call for totals does and answers. -/
structure Called (l : MemoryLedger) (w : Window) (only : Option Int) : Prop where
  failed : ∀ f, (l.writeTotals w only).2 = .error f → (l.writeTotals w only).1 = l
  /-- The answer is the number of campaigns whose rows were written. -/
  counted : ∀ n, (l.writeTotals w only).2 = .ok n →
    ∃ ids : List Int, ids.Nodup ∧ ids.length = n ∧ ∀ campaign, campaign ∈ ids ↔ Bears l w only campaign w.date
  apart : (l.writeTotals w only).1 = { l with stats := (l.writeTotals w only).1.stats }
  others : ∀ campaign d, d ≠ w.date ∨ ¬ Covers only campaign →
    (l.writeTotals w only).1.stats.get? ⟨campaign, d⟩ = l.stats.get? ⟨campaign, d⟩

theorem called (l : MemoryLedger) (w : Window) (only : Option Int) : Called l w only := by
  refine ⟨?_, ?_, ?_, ?_⟩
  · intro f failed
    cases fault : l.totalsFault only with
    | some f => rw [writeTotals_fails fault]
    | none =>
      rw [writeTotals_passes fault] at failed
      cases failed
  · intro n passed
    have free := writeTotals_ok passed
    refine ⟨(countIn w only l.records).keys, Table.keys_nodup ascending_countIn, ?_, ?_⟩
    · rw [writeTotals_passes free] at passed
      injection passed with length
      rw [← length, Table.keys, List.length_map]
    · intro campaign
      rw [mem_keys_countIn]
      constructor
      · rintro ⟨covers, met⟩
        exact ⟨⟨n, passed⟩, rfl, covers, met⟩
      · intro bears
        exact ⟨bears.covers, bears.met⟩
  · cases fault : l.totalsFault only with
    | some f => rw [writeTotals_fails fault]
    | none => rw [writeTotals_passes fault]
  · intro campaign d outside
    refine stats_unborne ?_
    intro bears
    rcases outside with other | uncovered
    · exact other bears.dated.symm
    · exact uncovered bears.covers

end MemoryLedger

end CampaignSettlement.Ledger
