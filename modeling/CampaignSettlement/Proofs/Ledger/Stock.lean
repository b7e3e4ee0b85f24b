import CampaignSettlement.Proofs.Ledger.Calls

/-!
Where the units of a campaign are. A unit is in the stock, or an open transaction holds it, or a record of
the log has it; calls move units between the three and neither make nor lose any, as long as a transaction
is committed only when each unit it took has an entry.
-/
namespace CampaignSettlement.Ledger

open MemoryLedger (takeUnit returnUnit)

abbrev Decision := Int × Result

def Entry.decision (e : Entry) : Decision := (e.campaign, e.result)

def winners (ds : List Decision) : List Int := (ds.filter (·.2 = .success)).map Prod.fst

/-- Each unit that was taken has an entry. -/
def Work.Covered (w : Work) : Prop := w.taken = winners (w.written.map fun row => row.2.decision)

namespace Holdings

/-- Records of a campaign that got a unit. -/
def sold (k : Holdings) (campaign : Int) : Nat :=
  (k.records.filter (·.campaign == campaign)).countP (·.status == Result.success.name)

def held (k : Holdings) (campaign : Int) : Nat := Table.total (fun w => w.taken.count campaign) k.works

structure Orderly (k : Holdings) : Prop where
  ascending : k.works.Ascending
  begun : ∀ row ∈ k.works, row.1 ≤ k.lastWork

theorem Orderly.fresh {k : Holdings} (h : k.Orderly) : k.works.get? (k.lastWork + 1) = none := by
  cases found : k.works.get? (k.lastWork + 1) with
  | none => rfl
  | some w =>
    have early := h.begun _ (Table.mem_of_get? found)
    exact absurd early (Nat.not_succ_le_self _)

theorem Orderly.put {k : Holdings} (h : k.Orderly) {work : Nat} (early : work ≤ k.lastWork) (w : Work)
    (campaigns : Table Int Campaign) : Orderly { k with campaigns, works := k.works.put work w } := by
  refine ⟨Table.ascending_put h.ascending work w, ?_⟩
  intro row member
  rcases Table.mem_put member with rfl | member
  · exact early
  · exact h.begun row member

theorem Orderly.close {k : Holdings} (h : k.Orderly) (work : Nat) (campaigns : Table Int Campaign)
    (records : List Record) : Orderly { k with campaigns, records, works := k.works.filter (·.1 != work) } :=
  ⟨Table.ascending_erase h.ascending work, fun row member => h.begun row (List.mem_filter.mp member).1⟩

theorem orderly_effect {k k' : Holdings} {c : StoreCall} {r : c.Reply} (h : k.Orderly) (effect : Effect k c r k') :
    k'.Orderly := by
  cases effect with
  | failed | known | refused => exact h
  | begun =>
    have ahead : Orderly { k with lastWork := k.lastWork + 1 } :=
      ⟨h.ascending, fun row member => Nat.le_succ_of_le (h.begun row member)⟩
    exact ahead.put (Nat.le_refl _) _ _
  | took opened => exact h.put (h.begun _ (Table.mem_of_get? opened)) _ _
  | wrote id e opened => exact h.put (h.begun _ (Table.mem_of_get? opened)) _ _
  | committed | undone | returned => exact h.close _ _ _

/-- The units of a campaign that was launched with `stock` are all there. -/
def Balanced (k : Holdings) (campaign stock : Int) : Prop :=
  ∃ c, k.campaigns.get? campaign = some c ∧ 0 ≤ c.currentStock ∧
    c.currentStock + k.sold campaign + k.held campaign = stock

theorem held_put {k : Holdings} (h : k.Orderly) (work : Nat) (w : Work) (campaign : Int)
    (campaigns : Table Int Campaign) :
    held { k with campaigns, works := k.works.put work w } campaign +
        ((k.works.get? work).map fun w => w.taken.count campaign).getD 0 =
      k.held campaign + w.taken.count campaign :=
  Table.total_put (fun w : Work => w.taken.count campaign) h.ascending work w

theorem held_close {k : Holdings} (h : k.Orderly) {work : Nat} {w : Work} (opened : k.works.get? work = some w)
    (campaign : Int) (campaigns : Table Int Campaign) (records : List Record) :
    held { k with campaigns, records, works := k.works.filter (·.1 != work) } campaign + w.taken.count campaign =
      k.held campaign := by
  have total := Table.total_erase (fun w : Work => w.taken.count campaign) h.ascending work
  rw [opened] at total
  exact total

theorem count_winners (written : List (Int × Entry)) (created : Calendar.Instant) (campaign : Int) :
    ((written.map fun row => Record.ofEntry row.1 row.2 created).filter (·.campaign == campaign)).countP
        (·.status == Result.success.name) =
      (winners (written.map fun row => row.2.decision)).count campaign := by
  induction written with
  | nil => rfl
  | cons row rows ih =>
    obtain ⟨id, e⟩ := row
    by_cases own : e.campaign = campaign <;> cases result : e.result <;>
      simp_all [winners, Entry.decision, Record.ofEntry, Result.name]

theorem get?_returned (taken : List Int) (campaigns : Table Int Campaign) (campaign : Int) :
    (taken.foldl (fun t id => t.update id returnUnit) campaigns).get? campaign =
      (campaigns.get? campaign).map fun c => { c with currentStock := c.currentStock + taken.count campaign } := by
  induction taken generalizing campaigns with
  | nil => simp
  | cons id taken ih =>
    rw [List.foldl_cons, ih, Table.get?_update]
    by_cases own : campaign = id
    · subst own
      simp [returnUnit, Function.comp_def, Int.add_assoc, Int.add_comm 1]
    · simp [own, Ne.symm own]

theorem balanced_returned {k : Holdings} {campaign stock : Int} (balanced : k.Balanced campaign stock)
    (h : k.Orderly) {work : Nat} {w : Work} (opened : k.works.get? work = some w) :
    (k.returned work w).Balanced campaign stock := by
  obtain ⟨c, found, stocked, sum⟩ := balanced
  refine ⟨_, by rw [returned, get?_returned, found, Option.map_some], ?_, ?_⟩
  · exact Int.add_nonneg stocked (Int.natCast_nonneg _)
  · have closed := held_close h opened campaign (k.returned work w).campaigns k.records
    have same : (k.returned work w).sold campaign = k.sold campaign := rfl
    have less : (k.returned work w).held campaign + w.taken.count campaign = k.held campaign := closed
    simp only [same]
    omega

theorem balanced_committed {k : Holdings} {campaign stock : Int} (balanced : k.Balanced campaign stock)
    (h : k.Orderly) {work : Nat} {w : Work} (opened : k.works.get? work = some w) (covered : w.Covered)
    (created : Calendar.Instant) : (k.committed work w created).Balanced campaign stock := by
  obtain ⟨c, found, stocked, sum⟩ := balanced
  refine ⟨c, found, stocked, ?_⟩
  have less : (k.committed work w created).held campaign + w.taken.count campaign = k.held campaign :=
    held_close h opened campaign k.campaigns _
  have more : (k.committed work w created).sold campaign = k.sold campaign + w.taken.count campaign := by
    rw [sold, committed, List.filter_append, List.countP_append, count_winners, covered]
    rfl
  omega

theorem balanced_took {k : Holdings} {campaign stock : Int} (balanced : k.Balanced campaign stock)
    (h : k.Orderly) {work : Nat} {w : Work} {id : Int} {c : Campaign} (opened : k.works.get? work = some w)
    (found : k.campaigns.get? id = some c) (stocked : 0 < c.currentStock) :
    (k.took work w id c).Balanced campaign stock := by
  obtain ⟨d, own, positive, sum⟩ := balanced
  have more : (k.took work w id c).held campaign + _ = _ :=
    held_put h work { w with taken := w.taken ++ [id] } campaign _
  rw [opened, Option.map_some, Option.getD_some, List.count_append] at more
  have same : (k.took work w id c).sold campaign = k.sold campaign := rfl
  by_cases here : campaign = id
  · subst here
    obtain rfl : c = d := Option.some.inj (found.symm.trans own)
    refine ⟨takeUnit c, by simp [took, Table.get?_put], by simp only [takeUnit]; omega, ?_⟩
    have one : (k.took work w campaign c).held campaign = k.held campaign + 1 := by
      simp only [List.count_cons_self, List.count_nil] at more
      omega
    simp only [takeUnit]
    omega
  · refine ⟨d, by simp [took, Table.get?_put, here, own], positive, ?_⟩
    have none : (k.took work w id c).held campaign = k.held campaign := by
      simp only [List.count_cons, List.count_nil, beq_iff_eq, Ne.symm here, if_false] at more
      omega
    omega

/-- Calls keep the units together; a commit does so when all units have their entries. -/
theorem balanced_effect {k k' : Holdings} {campaign stock : Int} {c : StoreCall} {r : c.Reply}
    (balanced : k.Balanced campaign stock) (h : k.Orderly) (effect : Effect k c r k')
    (covered : ∀ work, c = .commit work → ∀ w ∈ k.works.get? work, w.Covered) : k'.Balanced campaign stock := by
  cases effect with
  | failed | known | refused => exact balanced
  | begun =>
    obtain ⟨c, found, stocked, sum⟩ := balanced
    refine ⟨c, found, stocked, ?_⟩
    have more := held_put h (k.lastWork + 1) ⟨[], []⟩ campaign k.campaigns
    rw [h.fresh] at more
    have same : k.begun.held campaign = k.held campaign := more
    have sold : k.begun.sold campaign = k.sold campaign := rfl
    omega
  | took opened found stocked => exact balanced_took balanced h opened found stocked
  | @wrote work w id e opened =>
    obtain ⟨c, found, stocked, sum⟩ := balanced
    refine ⟨c, found, stocked, ?_⟩
    have more := held_put h work { w with written := w.written ++ [(id, e)] } campaign k.campaigns
    rw [opened] at more
    have same : (k.wrote work w id e).held campaign = k.held campaign := Nat.add_right_cancel more
    have sold : (k.wrote work w id e).sold campaign = k.sold campaign := rfl
    omega
  | committed created opened => exact balanced_committed balanced h opened (covered _ rfl _ opened) created
  | undone f opened => exact balanced_returned balanced h opened
  | returned r opened => exact balanced_returned balanced h opened

end Holdings

namespace MemoryLedger

theorem opening_rows (launches : List Launch) (l : MemoryLedger) :
    let opened := launches.foldl (fun l c => l.addCampaign c.id c.stock c.time) l
    opened.records = l.records ∧ opened.works = l.works ∧ opened.lastWork = l.lastWork := by
  induction launches generalizing l with
  | nil => exact ⟨rfl, rfl, rfl⟩
  | cons x launches ih => exact ih (l.addCampaign x.id x.stock x.time)

theorem opening_others {launches : List Launch} {id : Int} (other : id ∉ launches.map Launch.id) (l : MemoryLedger) :
    (launches.foldl (fun l c => l.addCampaign c.id c.stock c.time) l).campaigns.get? id = l.campaigns.get? id := by
  induction launches generalizing l with
  | nil => rfl
  | cons x launches ih =>
    rw [List.map_cons, List.mem_cons, not_or] at other
    rw [List.foldl_cons, ih other.2, addCampaign, Table.get?_put, if_neg other.1]

theorem opening_campaign {launches : List Launch} (distinct : (launches.map Launch.id).Nodup) {x : Launch}
    (member : x ∈ launches) :
    (opening launches).campaigns.get? x.id = some (.launch x.id x.stock x.time) := by
  unfold opening
  generalize ({} : MemoryLedger) = l
  induction launches generalizing l with
  | nil => cases member
  | cons y launches ih =>
    rw [List.map_cons, List.nodup_cons] at distinct
    rcases List.mem_cons.mp member with rfl | later
    · rw [List.foldl_cons, opening_others distinct.1, addCampaign, Table.get?_put_self]
    · exact ih distinct.2 later _

theorem opening_orderly (launches : List Launch) : (opening launches).holdings.Orderly := by
  obtain ⟨-, works, -⟩ := opening_rows launches {}
  have empty : (opening launches).holdings.works = [] := works
  exact ⟨by rw [empty]; exact .nil, by rw [empty]; simp⟩

theorem opening_balanced {launches : List Launch} (distinct : (launches.map Launch.id).Nodup) {x : Launch}
    (member : x ∈ launches) (stocked : 0 ≤ x.stock) : (opening launches).holdings.Balanced x.id x.stock := by
  obtain ⟨records, works, -⟩ := opening_rows launches {}
  have unsold : (opening launches).holdings.sold x.id = 0 := by
    have empty : (opening launches).holdings.records = [] := records
    simp [Holdings.sold, empty]
  have unheld : (opening launches).holdings.held x.id = 0 := by
    have empty : (opening launches).holdings.works = [] := works
    simp [Holdings.held, empty, Table.total]
  exact ⟨_, opening_campaign distinct member, stocked, by simp [Campaign.launch, unsold, unheld]⟩

end MemoryLedger

end CampaignSettlement.Ledger
