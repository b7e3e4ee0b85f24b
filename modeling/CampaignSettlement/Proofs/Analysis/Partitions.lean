import CampaignSettlement.Analysis.Order
import CampaignSettlement.Proofs.Analysis.Buffers
import CampaignSettlement.Proofs.Ledger.Rows

/-!
The analysis by partition. Each partition has a row with its arrivals; sorted by offset they have no inversions if the
sequences rise with the offsets. A record is left out of the analysis if it lacks what an arrival needs.
-/
namespace CampaignSettlement.Analysis

open Ledger (Record Table)

def arriveAt (p : Int) (as : List Arrival) : List Arrival := as.filter (·.partition == p)

def addTo (t : Table Int (List Arrival)) (a : Arrival) : Table Int (List Arrival) :=
  t.put a.partition ((t.get? a.partition).getD [] ++ [a])

theorem ascending_addAll (as : List Arrival) {t : Table Int (List Arrival)} (ascending : t.Ascending) :
    (as.foldl addTo t).Ascending := by
  induction as generalizing t with
  | nil => exact ascending
  | cons a as ih => exact ih (Table.ascending_put ascending a.partition _)

theorem arriveAt_cons (p : Int) (a : Arrival) (as : List Arrival) :
    arriveAt p (a :: as) = if a.partition = p then a :: arriveAt p as else arriveAt p as := by
  rw [arriveAt, List.filter_cons]
  simp only [beq_iff_eq]
  rfl

theorem get?_addAll (as : List Arrival) (t : Table Int (List Arrival)) (p : Int) :
    (as.foldl addTo t).get? p =
      if arriveAt p as = [] then t.get? p else some ((t.get? p).getD [] ++ arriveAt p as) := by
  induction as generalizing t with
  | nil => rfl
  | cons a as ih =>
    rw [List.foldl_cons, ih, addTo, Table.get?_put, arriveAt_cons]
    by_cases own : a.partition = p
    · subst own
      by_cases last : arriveAt a.partition as = []
      · simp [last]
      · simp [last]
    · simp [own, Ne.symm own]

theorem get?_byPartition (as : List Arrival) (p : Int) :
    (byPartition as).get? p = if arriveAt p as = [] then none else some (arriveAt p as) :=
  get?_addAll as [] p

theorem ascending_byPartition (as : List Arrival) : (byPartition as).Ascending := ascending_addAll as .nil

theorem mem_byPartition {as : List Arrival} {p : Int} {own : List Arrival} :
    (p, own) ∈ byPartition as ↔ arriveAt p as ≠ [] ∧ own = arriveAt p as := by
  rw [Table.mem_iff_get? (ascending_byPartition as), get?_byPartition]
  split
  case isTrue none => simp [none]
  case isFalse some => simp [some, eq_comm]

theorem arriveAt_mem {p : Int} {as : List Arrival} {a : Arrival} (member : a ∈ arriveAt p as) :
    a ∈ as ∧ a.partition = p := by
  obtain ⟨inside, own⟩ := List.mem_filter.mp member
  exact ⟨inside, by simpa using own⟩

def byOffset (as : List Arrival) : List Arrival := as.mergeSort fun a b => decide (a.offset ≤ b.offset)

theorem byOffset_ascending (as : List Arrival) : (byOffset as).Pairwise fun a b => a.offset ≤ b.offset := by
  have sorted : (byOffset as).Pairwise fun a b => decide (a.offset ≤ b.offset) = true := by
    refine List.pairwise_mergeSort ?_ ?_ as
    · intro a b c first second
      have le := of_decide_eq_true first
      have le' := of_decide_eq_true second
      exact decide_eq_true (Int.le_trans le le')
    · intro a b
      simpa using Int.le_total a.offset b.offset
  exact sorted.imp of_decide_eq_true

/-- What arrives at one partition with a greater offset was settled later. -/
def InTurn (as : List Arrival) : Prop :=
  ∀ a ∈ as, ∀ b ∈ as, a.partition = b.partition → a.offset ≤ b.offset → a.sequence ≤ b.sequence

theorem inTurn_uninverted {as : List Arrival} (turn : InTurn as) (p : Int) :
    inversions (sequences (byOffset (arriveAt p as))) = 0 := by
  have inside : ∀ a ∈ byOffset (arriveAt p as), a ∈ as ∧ a.partition = p :=
    fun a member => arriveAt_mem (List.mem_mergeSort.mp member)
  rw [inversions_eq]
  refine inverted_ascending (List.pairwise_map.mpr ?_)
  refine (byOffset_ascending (arriveAt p as)).imp_of_mem ?_
  intro a b first second offsets
  obtain ⟨at_first, own⟩ := inside a first
  obtain ⟨at_second, own'⟩ := inside b second
  exact turn a at_first b at_second (own.trans own'.symm) offsets

theorem mismatches_none {rs : List Record} (turn : InTurn (arrivals rs)) (limit : Nat) :
    ∀ row ∈ (analyze rs limit).mismatches, row.2 = 0 := by
  intro row member
  obtain ⟨⟨p, own⟩, grouped, rfl⟩ := List.mem_map.mp member
  obtain ⟨_, rfl⟩ := mem_byPartition.mp grouped
  exact inTurn_uninverted turn p

theorem mem_arrivals {rs : List Record} {a : Arrival} :
    a ∈ arrivals rs ↔ ∃ r ∈ rs, r.partition = some a.partition ∧ r.offset = some a.offset ∧
      r.sentAt = some a.sentAt ∧ r.sequence = some a.sequence ∧ r.user = a.user := by
  rw [arrivals, List.mem_mergeSort, List.mem_filterMap]
  refine exists_congr fun r => and_congr_right fun _ => ?_
  cases a
  simp only [Arrival.ofRecord?, Option.bind_eq_bind, Option.bind_eq_some_iff, Option.pure_def, Option.some.injEq,
    Arrival.mk.injEq]
  grind

theorem ofRecord?_isSome (r : Record) :
    (Arrival.ofRecord? r).isSome = (r.partition.isSome && r.offset.isSome && r.sentAt.isSome && r.sequence.isSome) := by
  rw [Arrival.ofRecord?]
  cases r.partition <;> cases r.offset <;> cases r.sentAt <;> cases r.sequence <;> rfl

theorem excluded_eq (rs : List Record) (limit : Nat) :
    (analyze rs limit).excluded =
      rs.countP fun r => !(r.partition.isSome && r.offset.isSome && r.sentAt.isSome && r.sequence.isSome) := by
  have analyzed : (arrivals rs).length = rs.countP fun r => (Arrival.ofRecord? r).isSome := by
    rw [arrivals, List.length_mergeSort, List.length_filterMap_eq_countP]
  have all := List.length_eq_countP_add_countP (fun r => (Arrival.ofRecord? r).isSome) (l := rs)
  have left : (analyze rs limit).excluded = rs.length - (arrivals rs).length := rfl
  rw [left, analyzed, all, Nat.add_sub_cancel_left]
  refine List.countP_congr ?_
  intro r _
  rw [ofRecord?_isSome]
  simp [or_assoc]

end CampaignSettlement.Analysis
