import Mathlib.Data.List.Forall2
import CampaignSettlement.Proofs.Settlement.Accord

/-!
First come, first served at one desk. The units of a campaign that only one desk serves go to its first
decisions, and once a decision was a refusal there is no unit left for a later one: units come back only
with the decisions that took them, and these are the last.
-/
namespace CampaignSettlement.Settlement

open Ledger (Decision Entry Holdings Record Result Table winners)

/-- The results `rs` were decided in turn over a stock that was `stock` and is `left`. -/
def FirstServed (stock left : Int) (rs : List Result) : Prop :=
  ∃ a b : Nat, rs = List.replicate a .success ++ List.replicate b .fail ∧ 0 ≤ left ∧ left + a = stock ∧
    (0 < b → left = 0)

theorem firstServed_start {stock : Int} (h : 0 ≤ stock) : FirstServed stock stock [] := ⟨0, 0, rfl, h, by simp, by simp⟩

theorem firstServed_success {stock left : Int} {rs : List Result} (h : FirstServed stock left rs) (stocked : 0 < left) :
    FirstServed stock (left - 1) (rs ++ [.success]) := by
  obtain ⟨a, b, rfl, nonneg, sum, empty⟩ := h
  have none : b = 0 := by
    by_contra some_fail
    have := empty (Nat.pos_of_ne_zero some_fail)
    omega
  subst none
  refine ⟨a + 1, 0, ?_, by omega, by omega, by simp⟩
  simp [List.replicate_succ']

theorem firstServed_fail {stock left : Int} {rs : List Result} (h : FirstServed stock left rs) (none_left : left ≤ 0) :
    FirstServed stock left (rs ++ [.fail]) := by
  obtain ⟨a, b, rfl, nonneg, sum, -⟩ := h
  refine ⟨a, b + 1, ?_, nonneg, sum, fun _ => by omega⟩
  rw [List.append_assoc, List.replicate_succ']

theorem firstServed_undone {stock left : Int} {rs undone : List Result} (h : FirstServed stock left (rs ++ undone)) :
    FirstServed stock (left + undone.count .success) rs := by
  obtain ⟨a, b, same, nonneg, sum, empty⟩ := h
  rcases List.append_eq_append_iff.mp same with ⟨later, all, rest⟩ | ⟨fails, rest, all⟩
  · obtain ⟨split, only, rest_only⟩ := List.replicate_eq_append_iff.mp all
    have units : undone.count .success = later.length := by
      rw [rest, rest_only, List.count_append]
      simp [List.count_replicate]
    refine ⟨rs.length, 0, by simpa using only, by omega, by omega, by simp⟩
  · obtain ⟨split, only, rest_only⟩ := List.replicate_eq_append_iff.mp all
    have units : undone.count .success = 0 := by
      rw [rest_only]
      simp [List.count_replicate]
    refine ⟨a, fails.length, by rw [rest, ← only], by omega, by omega, ?_⟩
    intro some_fail
    have left_none := empty (by omega)
    omega

def resultsFor (campaign : Int) (ds : List Decision) : List Result := (ds.filter (·.1 = campaign)).map Prod.snd

theorem resultsFor_append (campaign : Int) (ds more : List Decision) :
    resultsFor campaign (ds ++ more) = resultsFor campaign ds ++ resultsFor campaign more := by
  simp [resultsFor]

theorem count_winners_for (campaign : Int) (ds : List Decision) :
    (winners ds).count campaign = (resultsFor campaign ds).count .success := by
  induction ds with
  | nil => rfl
  | cons d ds ih =>
    obtain ⟨own, r⟩ := d
    by_cases here : own = campaign <;> cases r <;> simp_all [winners, resultsFor]

def Records (e : Entry) (r : Record) : Prop := r = .ofEntry r.id e r.createdAt

theorem records_written (written : List (Int × Entry)) (created : Calendar.Instant) :
    List.Forall₂ Records (written.map Prod.snd) (written.map fun row => .ofEntry row.1 row.2 created) := by
  rw [List.forall₂_map_left_iff, List.forall₂_map_right_iff, List.forall₂_same]
  exact fun row _ => rfl

theorem recorded_entry {es : List Entry} {rs : List Record} (h : List.Forall₂ Records es rs) {r : Record}
    (member : r ∈ rs) : ∃ e ∈ es, Records e r := by
  induction h with
  | nil => cases member
  | @cons e s es rs here rest ih =>
    rcases List.mem_cons.mp member with rfl | later
    · exact ⟨e, List.mem_cons_self, here⟩
    · obtain ⟨e', at_entry, kept⟩ := ih later
      exact ⟨e', List.mem_cons_of_mem _ at_entry, kept⟩

def entriesFor (campaign : Int) (es : List Entry) : List Entry := es.filter (·.campaign == campaign)

theorem records_filter {es : List Entry} {rs : List Record} (h : List.Forall₂ Records es rs) (campaign : Int) :
    List.Forall₂ Records (entriesFor campaign es) (rs.filter (·.campaign == campaign)) := by
  induction h with
  | nil => exact .nil
  | @cons e r es rs here rest ih =>
    have same : r.campaign = e.campaign := by rw [here]; rfl
    by_cases own : e.campaign = campaign
    · simpa [entriesFor, own, same] using ⟨here, ih⟩
    · simpa [entriesFor, own, same] using ih

/-- The log has of a campaign what one desk wrote, after the entries `past` of its earlier transactions, and
its stock went to the first decisions. -/
structure Served (campaign stock : Int) (past : List Entry) (d : Desk) (k : Holdings) : Prop where
  log : List.Forall₂ Records (entriesFor campaign (past ++ d.committed)) (k.records.filter (·.campaign == campaign))
  ranked : ∃ c, k.campaigns.get? campaign = some c ∧
    FirstServed stock c.currentStock
      (resultsFor campaign ((past ++ d.committed).map Entry.decision ++ d.decided))

variable {campaign stock : Int} {past : List Entry} {k k' : Holdings} {d d' : Desk}

theorem served_congr (served : Served campaign stock past d k) {past' : List Entry}
    (same : past' ++ d'.committed = past ++ d.committed) (decided : d'.decided = d.decided) :
    Served campaign stock past' d' k :=
  ⟨same ▸ served.log, by rw [same, decided]; exact served.ranked⟩

theorem resultsFor_own (campaign : Int) (r : Result) : resultsFor campaign [(campaign, r)] = [r] := by
  simp [resultsFor]

theorem resultsFor_other {campaign other : Int} (h : other ≠ campaign) (r : Result) :
    resultsFor campaign [(other, r)] = [] := by
  simp [resultsFor, h]

theorem served_act (served : Served campaign stock past d k) (held : d.HeldIn k) (act : Act k d k' d') :
    Served campaign stock past d' k' := by
  obtain ⟨log, c, found, ranked⟩ := served
  cases act with
  | still work pending written committed =>
    have same : d'.decided = d.decided := by rw [Desk.decided, written, pending]; rfl
    exact ⟨by rwa [committed], c, found, by rwa [committed, same]⟩
  | began tickets =>
    have none : (Desk.opened (k.lastWork + 1) [] .looking tickets).decided = [] := by cases tickets <;> rfl
    exact ⟨log, c, found, by rwa [none]⟩
  | @took work w own front t back opened at_campaign stocked =>
    refine ⟨log, ?_⟩
    rw [Desk.decided_writing, ← List.append_assoc, resultsFor_append]
    by_cases here : t.event.campaign = campaign
    · obtain rfl : own = c := Option.some.inj ((here ▸ at_campaign).symm.trans found)
      refine ⟨Ledger.MemoryLedger.takeUnit own, ?_, ?_⟩
      · simp [Holdings.took, here, Table.get?_put_self]
      · rw [here, resultsFor_own]
        exact firstServed_success ranked stocked
    · refine ⟨c, ?_, ?_⟩
      · simp [Holdings.took, Table.get?_put, Ne.symm here, found]
      · rw [resultsFor_other here, List.append_nil]
        exact ranked
  | refused work front t back none_left =>
    refine ⟨log, c, found, ?_⟩
    rw [Desk.decided_writing, ← List.append_assoc, resultsFor_append]
    by_cases here : t.event.campaign = campaign
    · rw [here, resultsFor_own]
      exact firstServed_fail ranked (none_left c (here ▸ found))
    · rw [resultsFor_other here, List.append_nil]
      exact ranked
  | wrote front r t n id back opened => exact ⟨log, c, found, by rw [Desk.decided_written]; exact ranked⟩
  | @committed work w front created opened =>
    obtain ⟨v, same, -, written⟩ := held work rfl
    obtain rfl := Option.some.inj (opened.symm.trans same)
    refine ⟨?_, c, found, ?_⟩
    · have more := records_filter (records_written w.written created) campaign
      rw [written] at more
      simp only [Desk.committed, List.append_nil] at log
      simpa [Holdings.committed, entriesFor, Desk.committed, Desk.written] using List.rel_append log more
    · simpa [Desk.committed, Desk.decided, Desk.written, Desk.pending] using ranked
  | @returned work w front step back opened =>
    obtain ⟨v, same, taken, -⟩ := held work rfl
    obtain rfl := Option.some.inj (opened.symm.trans same)
    refine ⟨log, _, by rw [Holdings.returned, Holdings.get?_returned, found, Option.map_some], ?_⟩
    rw [resultsFor_append] at ranked
    have back_again := firstServed_undone ranked
    rw [← count_winners_for, ← taken] at back_again
    simpa [Desk.reopened, Desk.committed, Desk.decided, Desk.written, Desk.pending] using back_again

theorem served_elsewhere (served : Served campaign stock past d k) {e e' : Desk} (held : e.HeldIn k)
    (act : Act k e k' e') (tickets : ∀ t ∈ e.tickets, t.event.campaign ≠ campaign)
    (decided : ∀ x ∈ e.decided, x.1 ≠ campaign) : Served campaign stock past d k' := by
  obtain ⟨log, c, found, ranked⟩ := served
  cases act with
  | still | began | refused | wrote => exact ⟨log, c, found, ranked⟩
  | took front t back opened at_campaign stocked =>
    have other : t.event.campaign ≠ campaign := tickets t (by simp [Desk.tickets])
    exact ⟨log, c, by simp [Holdings.took, Table.get?_put, Ne.symm other, found], ranked⟩
  | @committed work w front created opened =>
    obtain ⟨v, same, -, written⟩ := held work rfl
    obtain rfl := Option.some.inj (opened.symm.trans same)
    have none : (w.written.map fun row => Record.ofEntry row.1 row.2 created).filter (·.campaign == campaign) = [] := by
      simp only [List.filter_eq_nil_iff, List.mem_map, beq_iff_eq]
      rintro _ ⟨row, member, rfl⟩
      have at_desk : row.2 ∈ (Desk.opened work front .looking []).written := written ▸ List.mem_map_of_mem member
      exact decided row.2.decision (List.mem_append_left _ (List.mem_map_of_mem at_desk))
    exact ⟨by simpa [Holdings.committed, none] using log, c, found, ranked⟩
  | @returned work w front step back opened =>
    obtain ⟨v, same, taken, -⟩ := held work rfl
    obtain rfl := Option.some.inj (opened.symm.trans same)
    have none : w.taken.count campaign = 0 := by
      rw [taken, List.count_eq_zero]
      simp only [winners, List.mem_map, List.mem_filter]
      rintro ⟨x, ⟨member, -⟩, own⟩
      exact decided x member own
    refine ⟨log, _, by rw [Holdings.returned, Holdings.get?_returned, found, Option.map_some], ?_⟩
    simpa [none] using ranked

end CampaignSettlement.Settlement
