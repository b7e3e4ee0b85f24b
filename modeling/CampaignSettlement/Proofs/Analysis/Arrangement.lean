import CampaignSettlement.Proofs.Analysis.Counting
import CampaignSettlement.Proofs.Analysis.Partitions

/-!
The order of arrival, told by places. A stable sort keeps the places of equal elements in the order they stand in, so
the arrivals of a list stand in one strict order of its places, and so do those of a partition once they are sorted by
offset. Inversions are then pairs of places that the order and the sequences put apart, in whatever order the places
are gone through.
-/
namespace CampaignSettlement.Analysis

open Ledger (Record Table)

theorem stable_mergeSort {α : Type} (le : α → α → Bool) {R : α → α → Prop} {xs : List α}
    (trans : ∀ a b c, le a b = true → le b c = true → le a c = true) (total : ∀ a b, (le a b || le b a) = true)
    (stands : xs.Pairwise R) : (xs.mergeSort le).Pairwise fun a b => le a b = true ∧ (le b a = true → R a b) := by
  have sorted := List.pairwise_mergeSort (List.zipIdxLE_trans trans) (List.zipIdxLE_total total) xs.zipIdx
  have perm := List.mergeSort_perm xs.zipIdx (List.zipIdxLE le)
  have places : (xs.zipIdx.map Prod.snd).Pairwise (· ≠ ·) := by
    rw [List.zipIdx_map_snd]
    exact List.nodup_range'
  have apart := (perm.pairwise_iff fun differ => Ne.symm differ).mpr (List.pairwise_map.mp places)
  rw [← List.mergeSort_zipIdx, List.pairwise_map]
  refine (sorted.and apart).imp_of_mem ?_
  rintro ⟨x, i⟩ ⟨y, j⟩ first second ⟨ordered, differ⟩
  obtain ⟨short, at_x⟩ := List.mem_zipIdx' (perm.subset first)
  obtain ⟨short', at_y⟩ := List.mem_zipIdx' (perm.subset second)
  simp only [List.zipIdxLE] at ordered
  have le : le x y = true := by
    by_contra other
    rw [if_neg other] at ordered
    cases ordered
  refine ⟨le, ?_⟩
  intro back
  rw [if_pos le, if_pos back, decide_eq_true_eq] at ordered
  have less : i < j := Nat.lt_of_le_of_ne ordered differ
  rw [at_x, at_y]
  exact List.pairwise_iff_getElem.mp stands i j short short' less

/-- The arrivals that a list of records holds, as they stand. -/
def qualifying (rs : List Record) : List Arrival := rs.filterMap Arrival.ofRecord?

section Places

variable {as : List Arrival}

/-- Place `i` is arranged before place `j`: by time sent, then partition, then offset, and by the places in a tie. -/
def Precedes (as : List Arrival) (i j : Fin as.length) : Prop :=
  as[i].sentAt < as[j].sentAt ∨ as[i].sentAt = as[j].sentAt ∧
    (as[i].partition < as[j].partition ∨ as[i].partition = as[j].partition ∧
      (as[i].offset < as[j].offset ∨ as[i].offset = as[j].offset ∧ i < j))

instance (as : List Arrival) : DecidableRel (Precedes as) := fun _ _ => inferInstanceAs (Decidable (_ ∨ _))

/-- Place `i` is queued before place `j`: by offset, and in a tie as they are arranged. -/
def Queued (as : List Arrival) (i j : Fin as.length) : Prop :=
  as[i].offset < as[j].offset ∨ as[i].offset = as[j].offset ∧ Precedes as i j

instance (as : List Arrival) : DecidableRel (Queued as) := fun _ _ => inferInstanceAs (Decidable (_ ∨ _))

def partitionAt (as : List Arrival) (i : Fin as.length) : Int := as[i].partition

/-- The pairs of places in the order `R` whose sequences fall. -/
def opposed (as : List Arrival) (R : Fin as.length → Fin as.length → Prop) [DecidableRel R] :
    Finset (Fin as.length × Fin as.length) :=
  Finset.univ.filter fun p => R p.1 p.2 ∧ as[p.2].sequence < as[p.1].sequence

/-- `bs` are the elements of `as` in their arrangement. -/
def Arranged (as bs : List Arrival) : Prop :=
  ∃ places : List (Fin as.length),
    places.Perm (List.finRange as.length) ∧ places.Pairwise (Precedes as) ∧ bs = places.map as.get

theorem precedes_asymm (i j : Fin as.length) (first : Precedes as i j) : ¬ Precedes as j i := by
  unfold Precedes at *
  omega

theorem queued_asymm (i j : Fin as.length) (first : Queued as i j) : ¬ Queued as j i := by
  intro second
  rcases first with less | ⟨_, first⟩ <;> rcases second with less' | ⟨_, second⟩
  · omega
  · omega
  · omega
  · exact precedes_asymm i j first second

theorem before_iff (a b : Arrival) : a.before b = true ↔ a.sentAt < b.sentAt ∨ a.sentAt = b.sentAt ∧
    (a.partition < b.partition ∨ a.partition = b.partition ∧ a.offset ≤ b.offset) := by
  simp [Arrival.before]

theorem before_trans (a b c : Arrival) (first : a.before b = true) (second : b.before c = true) :
    a.before c = true := by
  rw [before_iff] at *
  omega

theorem before_total (a b : Arrival) : (a.before b || b.before a) = true := by
  rw [Bool.or_eq_true, before_iff, before_iff]
  omega

theorem arrivals_sorted (rs : List Record) : (arrivals rs).Pairwise fun a b => a.before b = true :=
  List.pairwise_mergeSort before_trans before_total _

theorem arrivals_perm (rs : List Record) : (arrivals rs).Perm (qualifying rs) := List.mergeSort_perm _ _

theorem mergeSort_places (le : Arrival → Arrival → Bool) (places : List (Fin as.length)) :
    (places.map as.get).mergeSort le = (places.mergeSort fun i j => le as[i] as[j]).map as.get :=
  (List.map_mergeSort (s := le) (f := as.get) fun _ _ _ _ => rfl).symm

theorem arranged_mergeSort (as : List Arrival) : Arranged as (as.mergeSort Arrival.before) := by
  refine ⟨(List.finRange as.length).mergeSort fun i j => Arrival.before as[i] as[j], List.mergeSort_perm _ _, ?_, ?_⟩
  · have stable := stable_mergeSort (fun i j : Fin as.length => Arrival.before as[i] as[j])
      (fun i j k => before_trans as[i] as[j] as[k]) (fun i j => before_total as[i] as[j])
      (List.pairwise_lt_finRange as.length)
    refine stable.imp ?_
    intro i j standing
    simp only [before_iff] at standing
    unfold Precedes
    omega
  · rw [← mergeSort_places, List.map_get_finRange]

theorem inverted_opposed {R : Fin as.length → Fin as.length → Prop} [DecidableRel R] {c : Fin as.length → Bool}
    (asymm : ∀ i j, R i j → ¬ R j i) {places : List (Fin as.length)}
    (perm : places.Perm ((List.finRange as.length).filter c)) (sorted : places.Pairwise R) :
    inverted (sequences (places.map as.get)) = (opposed as fun i j => c i ∧ c j ∧ R i j).card := by
  have asymm (i j : Fin as.length) (first : decide (R i j) = true) : decide (R j i) = false :=
    decide_eq_false (asymm i j (of_decide_eq_true first))
  rw [sequences, List.map_map, inverted_meeting asymm (sorted.imp decide_eq_true), meeting_perm perm, meeting_filter,
    meeting_places, opposed]
  simp only [Bool.and_eq_true, decide_eq_true_eq, Function.comp_apply, List.get_eq_getElem, Fin.getElem_fin, and_assoc]

theorem Arranged.perm {bs : List Arrival} (arranged : Arranged as bs) : bs.Perm as := by
  obtain ⟨places, perm, -, rfl⟩ := arranged
  have same := perm.map as.get
  rwa [List.map_get_finRange] at same

theorem Arranged.inverted_eq {bs : List Arrival} (arranged : Arranged as bs) :
    inverted (sequences bs) = (opposed as (Precedes as)).card := by
  obtain ⟨places, perm, sorted, rfl⟩ := arranged
  have counted := inverted_opposed (c := fun _ => true) precedes_asymm (by simpa using perm) sorted
  simpa using counted

theorem Arranged.inverted_byOffset {bs : List Arrival} (arranged : Arranged as bs) (p : Int) :
    inverted (sequences (byOffset (arriveAt p bs))) =
      (opposed as fun i j => partitionAt as i = p ∧ partitionAt as j = p ∧ Queued as i j).card := by
  obtain ⟨places, perm, sorted, rfl⟩ := arranged
  have own := perm.filter fun i => partitionAt as i == p
  have stable := stable_mergeSort (fun i j : Fin as.length => decide (as[i].offset ≤ as[j].offset))
    (by simp only [decide_eq_true_eq]; omega) (by simp only [Bool.or_eq_true, decide_eq_true_eq]; omega)
    (sorted.filter fun i => partitionAt as i == p)
  have offsets : ((places.filter fun i => partitionAt as i == p).mergeSort fun i j =>
      decide (as[i].offset ≤ as[j].offset)).Pairwise (Queued as) := by
    refine stable.imp ?_
    intro i j standing
    simp only [decide_eq_true_eq] at standing
    unfold Queued
    by_cases tie : as[j].offset ≤ as[i].offset
    · exact Or.inr ⟨Int.le_antisymm standing.1 tie, standing.2 tie⟩
    · exact Or.inl (Int.not_le.mp tie)
  have counted := inverted_opposed queued_asymm ((List.mergeSort_perm _ _).trans own) offsets
  simp only [beq_iff_eq] at counted
  rw [byOffset, arriveAt, List.filter_map, mergeSort_places]
  exact counted

theorem Arranged.unique {bs cs : List Arrival} (arranged : Arranged as bs) (arranged' : Arranged as cs) : bs = cs := by
  obtain ⟨places, perm, sorted, rfl⟩ := arranged
  obtain ⟨places', perm', sorted', rfl⟩ := arranged'
  have same := (perm.trans perm'.symm).eq_of_pairwise
    (fun i j _ _ first second => absurd second (precedes_asymm i j first)) sorted sorted'
  rw [same]

end Places

/-- Neighbours in falling order. -/
def neighbours (as : List Arrival) : List Violation :=
  ((as.zip as.tail).filter fun pair => decide (pair.2.sequence < pair.1.sequence)).map fun pair => ⟨pair.1, pair.2⟩

theorem descents_eq (as : List Arrival) : descents as = neighbours as := by
  fun_induction descents as with
  | case1 a b rest falls ih => simpa [neighbours, falls] using ih
  | case2 a b rest keeps ih => simpa [neighbours, keeps] using ih
  | case3 as short =>
    cases as with
    | nil => rfl
    | cons a rest =>
      cases rest with
      | nil => rfl
      | cons b rest => exact absurd rfl (short a b rest)

theorem descents_nil {as : List Arrival} : descents as = [] ↔ (sequences as).Pairwise (· ≤ ·) := by
  rw [← List.isChain_iff_pairwise]
  fun_induction descents as with
  | case1 a b rest falls ih =>
    simp only [reduceCtorEq, false_iff, sequences, List.map_cons, List.isChain_cons_cons, not_and]
    omega
  | case2 a b rest keeps ih =>
    rw [ih]
    simp only [sequences, List.map_cons, List.isChain_cons_cons, Int.not_lt.mp keeps, true_and]
  | case3 as short =>
    cases as with
    | nil => simp [sequences]
    | cons a rest =>
      cases rest with
      | nil => simp [sequences]
      | cons b rest => exact absurd rfl (short a b rest)

end CampaignSettlement.Analysis
