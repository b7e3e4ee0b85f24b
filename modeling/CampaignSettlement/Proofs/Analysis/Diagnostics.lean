import CampaignSettlement.Proofs.Analysis.Arrangement

/-!
The figures of an analysis. Each of them is told by the records that qualify and by the one strict order in which they
are arranged, so that it does not matter how the records are listed as long as nothing ties. If nothing in a partition
was sent before what has a lesser offset, both orders of the partition are one, and the pairs out of order are those
inside the partitions and those between them.
-/
namespace CampaignSettlement.Analysis

open Ledger (Record Table)

/-- There is a row for each partition at which something of `as` arrives, with the number that `count` gives, and there
is no other row. -/
structure Tabulates (as : List Arrival) (count : Int → Nat) (t : Table Int Nat) : Prop where
  ascending : t.Ascending
  rows : ∀ p n, (p, n) ∈ t ↔ (∃ a ∈ as, a.partition = p) ∧ n = count p

section Tabulates

variable {as bs : List Arrival} {count : Int → Nat} {t : Table Int Nat}

theorem arriveAt_ne_nil {p : Int} : arriveAt p as ≠ [] ↔ ∃ a ∈ as, a.partition = p := by
  simp [arriveAt]

theorem tabulates_byPartition (perm : bs.Perm as) {f : List Arrival → Nat}
    (counted : ∀ p, f (arriveAt p bs) = count p) :
    Tabulates as count ((byPartition bs).map fun (p, own) => (p, f own)) := by
  refine ⟨List.pairwise_map.mpr (ascending_byPartition bs), ?_⟩
  intro p n
  have occurs : (∃ a ∈ as, a.partition = p) ↔ arriveAt p bs ≠ [] := by
    simp only [arriveAt_ne_nil, perm.mem_iff]
  rw [List.mem_map, occurs]
  constructor
  · rintro ⟨⟨q, own⟩, grouped, same⟩
    obtain ⟨some, rfl⟩ := mem_byPartition.mp grouped
    cases same
    exact ⟨some, counted p⟩
  · rintro ⟨some, rfl⟩
    exact ⟨(p, arriveAt p bs), mem_byPartition.mpr ⟨some, rfl⟩, congrArg (Prod.mk p) (counted p)⟩

theorem Tabulates.mem_keys (tabulates : Tabulates as count t) {p : Int} :
    p ∈ t.keys ↔ ∃ a ∈ as, a.partition = p := by
  rw [Table.keys, List.mem_map]
  constructor
  · rintro ⟨⟨q, n⟩, row, rfl⟩
    exact ((tabulates.rows q n).mp row).1
  · intro occurs
    exact ⟨(p, count p), (tabulates.rows p _).mpr ⟨occurs, rfl⟩, rfl⟩

theorem Tabulates.sum (tabulates : Tabulates as count t) {ι : Type} {s : Finset ι} {place : ι → Fin as.length}
    (counts : ∀ p, count p = (s.filter fun x => partitionAt as (place x) = p).card) : t.values.sum = s.card := by
  have values : t.values = t.keys.map count := by
    rw [Table.values, Table.keys, List.map_map]
    refine List.map_congr_left ?_
    rintro ⟨p, n⟩ row
    exact ((tabulates.rows p n).mp row).2
  have into : ∀ x ∈ s, partitionAt as (place x) ∈ t.keys.toFinset := by
    intro x _
    rw [List.mem_toFinset, tabulates.mem_keys]
    exact ⟨as[place x], List.getElem_mem _, rfl⟩
  rw [values, ← List.sum_toFinset count (Table.keys_nodup tabulates.ascending), Finset.card_eq_sum_card_fiberwise into]
  exact Finset.sum_congr rfl fun p _ => counts p

end Tabulates

/-- The pairs of places of one partition whose sequences fall in the order of the offsets. -/
def within (as : List Arrival) (p : Int) : Finset (Fin as.length × Fin as.length) :=
  opposed as fun i j => partitionAt as i = p ∧ partitionAt as j = p ∧ Queued as i j

/-- The pairs of places of two partitions whose sequences fall in the arrangement. -/
def across (as : List Arrival) : Finset (Fin as.length × Fin as.length) :=
  opposed as fun i j => partitionAt as i ≠ partitionAt as j ∧ Precedes as i j

section Figures

variable (rs : List Record) (limit : Nat)

theorem arranged_arrivals : Arranged (qualifying rs) (arrivals rs) := arranged_mergeSort _

theorem inversions_opposed :
    (analyze rs limit).inversions = (opposed (qualifying rs) (Precedes (qualifying rs))).card := by
  change inversions (sequences (arrivals rs)) = _
  rw [inversions_eq, (arranged_arrivals rs).inverted_eq]

theorem distribution_tabulates :
    Tabulates (qualifying rs) (fun p => (qualifying rs).countP (·.partition == p)) (analyze rs limit).distribution := by
  have perm := (arranged_arrivals rs).perm
  refine tabulates_byPartition (f := List.length) perm ?_
  intro p
  rw [arriveAt, ← List.countP_eq_length_filter, perm.countP_eq]

theorem mismatches_tabulate :
    Tabulates (qualifying rs) (fun p => (within (qualifying rs) p).card) (analyze rs limit).mismatches := by
  have arranged := arranged_arrivals rs
  refine tabulates_byPartition (f := fun own => inversions (sequences (byOffset own))) arranged.perm ?_
  intro p
  rw [inversions_eq, arranged.inverted_byOffset]
  rfl

theorem distribution_sum : (analyze rs limit).distribution.values.sum = (qualifying rs).length := by
  have counts (p : Int) : (qualifying rs).countP (·.partition == p) =
      (Finset.univ.filter fun i => partitionAt (qualifying rs) i = p).card := by
    rw [countP_places]
    exact congrArg Finset.card (Finset.filter_congr fun i _ => beq_iff_eq)
  rw [(distribution_tabulates rs limit).sum counts, Finset.card_univ, Fintype.card_fin]

structure Tells (a : OrderAnalysis) : Prop where
  total : a.total = rs.length
  analyzed : a.analyzed = (qualifying rs).length
  excluded : a.excluded =
    rs.countP fun r => !(r.partition.isSome && r.offset.isSome && r.sentAt.isSome && r.sequence.isSome)
  all : a.analyzed + a.excluded = a.total
  inversions : a.inversions = (opposed (qualifying rs) (Precedes (qualifying rs))).card
  distribution : Tabulates (qualifying rs) (fun p => (qualifying rs).countP (·.partition == p)) a.distribution
  sum : a.distribution.values.sum = a.analyzed
  partitions : a.members.lookup "partitionCount" = some (.nat a.distribution.length)
  mismatches : Tabulates (qualifying rs) (fun p => (within (qualifying rs) p).card) a.mismatches
  keys : a.mismatches.keys = a.distribution.keys
  arranged : ∃ as, Arranged (qualifying rs) as
  violations : ∀ as, Arranged (qualifying rs) as → a.violations = (neighbours as).take limit
  clear : 1 ≤ limit → (a.violations = [] ↔ a.inversions = 0)

theorem violations_clear (some : 1 ≤ limit) :
    (analyze rs limit).violations = [] ↔ (analyze rs limit).inversions = 0 := by
  change (descents (arrivals rs)).take limit = [] ↔ inversions (sequences (arrivals rs)) = 0
  rw [inversions_eq, inverted_eq_zero, ← descents_nil, List.take_eq_nil_iff]
  exact or_iff_right (by omega)

theorem tells_analyze : Tells rs limit (analyze rs limit) where
  total := rfl
  analyzed := (arranged_arrivals rs).perm.length_eq
  excluded := excluded_eq rs limit
  all := by
    have most : (arrivals rs).length ≤ rs.length := by
      rw [(arranged_arrivals rs).perm.length_eq]
      exact List.length_filterMap_le _ _
    exact Nat.add_sub_cancel' most
  inversions := inversions_opposed rs limit
  distribution := distribution_tabulates rs limit
  sum := (distribution_sum rs limit).trans (arranged_arrivals rs).perm.length_eq.symm
  partitions := rfl
  mismatches := mismatches_tabulate rs limit
  keys := by simp only [analyze, Table.keys, List.map_map, Function.comp_def]
  arranged := ⟨_, arranged_arrivals rs⟩
  violations := by
    intro as arranged
    obtain rfl := arranged.unique (arranged_arrivals rs)
    exact congrArg (List.take limit) (descents_eq _)
  clear := violations_clear rs limit

end Figures

/-- No two records that qualify tie in the order of arrival. -/
def Untied (as : List Arrival) : Prop := (as.map fun a => (a.sentAt, a.partition, a.offset)).Nodup

theorem arrivals_of_perm {rs others : List Record} (perm : rs.Perm others) (untied : Untied (qualifying rs)) :
    arrivals others = arrivals rs := by
  have listed : (arrivals others).Perm (arrivals rs) :=
    (arrivals_perm others).trans ((perm.filterMap Arrival.ofRecord?).symm.trans (arrivals_perm rs).symm)
  refine listed.eq_of_pairwise ?_ (arrivals_sorted others) (arrivals_sorted rs)
  intro a b first second before after
  rw [before_iff] at before after
  have same : (a.sentAt, a.partition, a.offset) = (b.sentAt, b.partition, b.offset) := by
    simp only [Prod.mk.injEq]
    omega
  have inside : a ∈ qualifying rs := (arrivals_perm rs).subset (listed.subset first)
  exact List.inj_on_of_nodup_map untied inside ((arrivals_perm rs).subset second) same

/-- An analysis is answered exactly if the product under the number of its pairs is a word of 64 bits. -/
theorem analyze_tells (rs : List Record) (limit : Nat) : Tells rs limit (analyze rs limit) ∧
    (∀ others, rs.Perm others → Untied (qualifying rs) → analyze others limit = analyze rs limit) ∧
    ∀ a, analyzeInRange rs limit = .ok a ↔ a = analyze rs limit ∧ (qualifying rs).length ≤ 2 ^ 32 := by
  refine ⟨tells_analyze rs limit, ?_, ?_⟩
  · intro others perm untied
    simp only [analyze, arrivals_of_perm perm untied, perm.length_eq]
  · intro a
    rw [← (arrivals_perm rs).length_eq]
    exact analyzeInRange_ok

def stamped (partition offset sentAt sequence : Int) : Record :=
  ⟨sequence, 1, 10, "SUCCESS", some partition, some offset, some sentAt, some sequence,
    ⟨⟨20743, by decide⟩, .midnight⟩⟩

theorem analyze_tells_two :
    let rs := [stamped 0 0 100 2, stamped 1 0 200 1, { stamped 1 1 300 3 with sequence := none }]
    let others := [rs[2], rs[1], rs[0]]
    rs.Perm others ∧ Untied (qualifying rs) ∧ (analyze rs 1).inversions = 1 ∧ analyze others 1 = analyze rs 1 ∧
      ((analyze rs 1).violations = [] ↔ (analyze rs 1).inversions = 0) := by
  intro rs others
  have perm : rs.Perm others := by decide
  have untied : Untied (qualifying rs) := by unfold Untied; decide
  have told := analyze_tells rs 1
  refine ⟨perm, untied, ?_, told.2.1 others perm untied, told.1.clear Nat.le.refl⟩
  rw [told.1.inversions]
  decide

/-- Inside each partition, nothing was sent before what has a lesser offset. -/
def Steady (as : List Arrival) : Prop :=
  ∀ a ∈ as, ∀ b ∈ as, a.partition = b.partition → a.offset < b.offset → a.sentAt ≤ b.sentAt

theorem Steady.precedes_iff {as : List Arrival} (steady : Steady as) {i j : Fin as.length}
    (same : partitionAt as i = partitionAt as j) : Precedes as i j ↔ Queued as i j := by
  unfold partitionAt at same
  have onward := steady as[i] (List.getElem_mem _) as[j] (List.getElem_mem _) same
  have back := steady as[j] (List.getElem_mem _) as[i] (List.getElem_mem _) same.symm
  simp only [Queued, Precedes, same, lt_irrefl, false_or, true_and]
  omega

def paired (as : List Arrival) : Finset (Fin as.length × Fin as.length) :=
  (opposed as (Precedes as)).filter fun p => partitionAt as p.1 = partitionAt as p.2

theorem card_opposed (as : List Arrival) : (opposed as (Precedes as)).card = (paired as).card + (across as).card := by
  rw [paired, ← Finset.card_filter_add_card_filter_not fun p => partitionAt as p.1 = partitionAt as p.2]
  congr 2
  ext p
  simp only [opposed, across, Finset.mem_filter, Finset.mem_univ, true_and]
  tauto

theorem Steady.within_eq {as : List Arrival} (steady : Steady as) (p : Int) :
    within as p = (paired as).filter fun x => partitionAt as x.1 = p := by
  ext x
  simp only [within, paired, opposed, Finset.mem_filter, Finset.mem_univ, true_and]
  constructor
  · rintro ⟨⟨first, second, offsets⟩, falls⟩
    have same := first.trans second.symm
    exact ⟨⟨⟨(steady.precedes_iff same).mpr offsets, falls⟩, same⟩, first⟩
  · rintro ⟨⟨⟨precedes, falls⟩, same⟩, first⟩
    exact ⟨⟨first, same.symm.trans first, (steady.precedes_iff same).mp precedes⟩, falls⟩

theorem Steady.sum_mismatches {rs : List Record} (steady : Steady (qualifying rs)) (limit : Nat) :
    (analyze rs limit).mismatches.values.sum = (paired (qualifying rs)).card :=
  (mismatches_tabulate rs limit).sum fun p => congrArg Finset.card (steady.within_eq p)

theorem inversions_decompose (rs : List Record) (limit : Nat) (steady : Steady (qualifying rs)) :
    (analyze rs limit).inversions = (analyze rs limit).mismatches.values.sum + (across (qualifying rs)).card ∧
      (analyze rs limit).mismatches.values.sum ≤ (analyze rs limit).inversions ∧
      ((analyze rs limit).inversions = 0 → ∀ row ∈ (analyze rs limit).mismatches, row.2 = 0) := by
  have parts : (analyze rs limit).inversions =
      (analyze rs limit).mismatches.values.sum + (across (qualifying rs)).card := by
    rw [inversions_opposed, card_opposed, steady.sum_mismatches]
  refine ⟨parts, by omega, ?_⟩
  intro none row member
  have sum : (analyze rs limit).mismatches.values.sum = 0 := by omega
  exact List.sum_eq_zero_iff_forall_eq_nat.mp sum row.2 (List.mem_map_of_mem member)

theorem inversions_decompose_overtaken :
    let rs := [stamped 0 0 100 4, stamped 0 0 100 3, stamped 1 0 200 1, stamped 1 1 200 2]
    Steady (qualifying rs) ∧ (analyze rs 10).inversions = 5 ∧ (across (qualifying rs)).card = 4 ∧
      (analyze rs 10).inversions = (analyze rs 10).mismatches.values.sum + (across (qualifying rs)).card := by
  intro rs
  have steady : Steady (qualifying rs) := by unfold Steady; decide
  have parts := inversions_decompose rs 10 steady
  refine ⟨steady, ?_, by decide, parts.1⟩
  rw [inversions_opposed]
  decide

end CampaignSettlement.Analysis
