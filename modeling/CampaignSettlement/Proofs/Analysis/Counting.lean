import Mathlib.Algebra.BigOperators.Fin
import Mathlib.Data.Fintype.BigOperators
import Mathlib.Data.List.FinRange
import Mathlib.Data.Nat.Choose.Basic
import CampaignSettlement.Analysis.Order
import CampaignSettlement.Proofs.Analysis.Buffers

/-!
Pairs, counted over lists and over places. The inversions that merging counts are the pairs of places whose values stand
in falling order; there are at most as many as there are pairs at all, so what is left for the share of pairs in order
is never cut off at zero.
-/
namespace CampaignSettlement.Analysis

open Ledger (Record)
open Number (Range nat64)

/-- The pairs of an element of `xs` and one of `ys` between which `P` holds. -/
def meeting {α : Type} (P : α → α → Bool) (xs ys : List α) : Nat := (xs.map fun x => ys.countP (P x)).sum

section Meeting

variable {α : Type} {P Q : α → α → Bool} {xs ys : List α}

theorem meeting_cons (x : α) : meeting P (x :: xs) ys = ys.countP (P x) + meeting P xs ys := by
  rw [meeting, List.map_cons, List.sum_cons, meeting]

theorem meeting_cons_right (y : α) : meeting P xs (y :: ys) = xs.countP (fun x => P x y) + meeting P xs ys := by
  induction xs with
  | nil => rfl
  | cons x xs ih =>
    rw [meeting_cons, meeting_cons, ih, List.countP_cons, List.countP_cons]
    omega

theorem meeting_flip : meeting P xs ys = meeting (fun y x => P x y) ys xs := by
  induction ys with
  | nil => simp [meeting]
  | cons y ys ih => rw [meeting_cons_right, meeting_cons, ih]

theorem meeting_perm (perm : xs.Perm ys) : meeting P xs xs = meeting P ys ys := by
  have same : (fun x => xs.countP (P x)) = fun x => ys.countP (P x) := funext fun x => perm.countP_eq _
  rw [meeting, meeting, same]
  exact (perm.map _).sum_eq

theorem meeting_congr (same : ∀ x ∈ xs, ∀ y ∈ ys, P x y = Q x y) : meeting P xs ys = meeting Q xs ys := by
  unfold meeting
  congr 1
  refine List.map_congr_left ?_
  intro x inside
  refine List.countP_congr ?_
  intro y inside'
  rw [same x inside y inside']

theorem meeting_filter (c : α → Bool) :
    meeting P (xs.filter c) (ys.filter c) = meeting (fun x y => c x && c y && P x y) xs ys := by
  induction xs with
  | nil => rfl
  | cons x xs ih =>
    by_cases own : c x = true
    · rw [List.filter_cons_of_pos own, meeting_cons, meeting_cons, ih, List.countP_filter]
      simp [own, Bool.and_comm]
    · rw [List.filter_cons_of_neg own, ih, meeting_cons]
      simp [own]

theorem countP_finRange {n : Nat} (p : Fin n → Bool) :
    (List.finRange n).countP p = (Finset.univ.filter fun i => p i = true).card := by
  have counted := (List.nodup_finRange n).card_eq_countP (P := fun i => p i = true)
  rw [List.toFinset_finRange] at counted
  simpa using counted.symm

theorem countP_places (xs : List α) (p : α → Bool) :
    xs.countP p = (Finset.univ.filter fun i : Fin xs.length => p xs[i] = true).card := by
  rw [← countP_finRange fun i : Fin xs.length => p xs[i]]
  conv_lhs => rw [← List.map_get_finRange xs]
  exact List.countP_map

theorem meeting_places {n : Nat} (P : Fin n → Fin n → Bool) : meeting P (List.finRange n) (List.finRange n) =
    (Finset.univ.filter fun p : Fin n × Fin n => P p.1 p.2 = true).card := by
  simp only [meeting, countP_finRange, ← Fin.sum_univ_def, Finset.card_filter, Fintype.sum_prod_type]

end Meeting

/-- In a list that stands in a strict order, the inverted pairs are those that this order and the values put apart. -/
theorem inverted_meeting {α : Type} {R : α → α → Bool} {f : α → Int} {xs : List α}
    (asymm : ∀ x y, R x y = true → R y x = false) (sorted : xs.Pairwise fun x y => R x y = true) :
    inverted (xs.map f) = meeting (fun x y => R x y && decide (f y < f x)) xs xs := by
  induction sorted with
  | nil => rfl
  | @cons x xs first _ ih =>
    have ahead : xs.countP (fun y => R x y && decide (f y < f x)) =
        xs.countP fun y => decide (f y < f x) := by
      refine List.countP_congr ?_
      intro y inside
      rw [first y inside, Bool.true_and]
    have behind : xs.countP (fun y => R y x && decide (f x < f y)) = 0 := by
      refine List.countP_eq_zero.mpr ?_
      intro y inside
      rw [asymm x y (first y inside)]
      simp
    rw [List.map_cons, inverted, List.countP_map, ih, meeting_cons, meeting_cons_right, List.countP_cons, ahead, behind]
    simp [Function.comp_def]

theorem inverted_eq_zero {xs : List Int} : inverted xs = 0 ↔ xs.Pairwise (· ≤ ·) := by
  constructor
  · intro none
    induction xs with
    | nil => exact .nil
    | cons x xs ih =>
      obtain ⟨here, later⟩ := Nat.add_eq_zero_iff.mp none
      refine List.pairwise_cons.mpr ⟨?_, ih later⟩
      intro y inside
      have := List.countP_eq_zero.mp here y inside
      simpa using this
  · exact inverted_ascending

/-- The pairs of places whose values stand in falling order. -/
def falling (values : List Int) : Finset (Fin values.length × Fin values.length) :=
  Finset.univ.filter fun p => p.1 < p.2 ∧ values[p.2] < values[p.1]

theorem inverted_falling (values : List Int) : inverted values = (falling values).card := by
  have asymm (i j : Fin values.length) (less : decide (i < j) = true) : decide (j < i) = false := by
    rw [decide_eq_true_eq] at less
    exact decide_eq_false less.asymm
  have sorted : (List.finRange values.length).Pairwise fun i j => decide (i < j) = true :=
    (List.pairwise_lt_finRange _).imp decide_eq_true
  have counted := inverted_meeting (f := values.get) asymm sorted
  rw [List.map_get_finRange, meeting_places] at counted
  simpa [falling] using counted

theorem pairs_succ (n : Nat) : pairs (n + 1) = pairs n + n := Nat.triangle_succ n

theorem inverted_le_pairs (values : List Int) : inverted values ≤ pairs values.length := by
  induction values with
  | nil => exact Nat.zero_le _
  | cons v values ih =>
    have first := List.countP_le_length (p := fun y => decide (y < v)) (l := values)
    rw [inverted, List.length_cons, pairs_succ]
    omega

theorem two_mul_pairs (n : Nat) : 2 * pairs n = n * (n - 1) :=
  Nat.mul_div_cancel' (Nat.even_mul_pred_self n).two_dvd

theorem inversions_le_pairs (values : List Int) : inversions values ≤ pairs values.length :=
  (inversions_eq values).trans_le (inverted_le_pairs values)

theorem analyze_inversions_le (rs : List Record) (limit : Nat) :
    (analyze rs limit).inversions ≤ (analyze rs limit).pairs := by
  have most := inversions_le_pairs (sequences (arrivals rs))
  rwa [sequences, List.length_map] at most

theorem product_lt_iff (n : Nat) : n * (n - 1) < 2 ^ 64 ↔ n ≤ 2 ^ 32 := by
  constructor
  · intro fits
    by_contra more
    have large : 2 ^ 32 + 1 ≤ n := by omega
    have least := Nat.mul_le_mul large (Nat.sub_le_sub_right large 1)
    omega
  · intro few
    have most := Nat.mul_le_mul few (Nat.sub_le_sub_right few 1)
    omega

theorem pairs_lt {n : Nat} (few : n ≤ 2 ^ 32) : pairs n < 2 ^ 64 := by
  have double := two_mul_pairs n
  have product := (product_lt_iff n).mpr few
  omega

theorem nat64_holds_iff {n : Nat} : nat64.holds n = true ↔ n < 2 ^ 64 := by
  rw [Range.holds_iff]
  simp only [nat64]
  omega

/-- The pairs of at most `2 ^ 32` records, and of no more, are counted in 64 bits. -/
theorem analyzeInRange_ok {rs : List Record} {limit : Nat} {a : OrderAnalysis} :
    analyzeInRange rs limit = .ok a ↔ a = analyze rs limit ∧ (arrivals rs).length ≤ 2 ^ 32 := by
  have analyzed : (analyze rs limit).analyzed = (arrivals rs).length := rfl
  rw [← product_lt_iff, ← analyzed, ← nat64_holds_iff]
  cases multiplied : nat64.holds ((analyze rs limit).analyzed * ((analyze rs limit).analyzed - 1) : Nat) with
  | false =>
    simp only [analyzeInRange, multiplied]
    split <;> simp
  | true =>
    have few := (product_lt_iff _).mp (nat64_holds_iff.mp multiplied)
    have counted := nat64_holds_iff.mpr ((analyze_inversions_le rs limit).trans_lt (pairs_lt few))
    have answered : analyzeInRange rs limit = .ok (analyze rs limit) := by
      simp only [analyzeInRange, counted, multiplied, Bool.not_true, Bool.false_eq_true, if_false]
    rw [answered]
    constructor
    · intro same
      exact ⟨(Except.ok.inj same).symm, rfl⟩
    · rintro ⟨rfl, -⟩
      rfl

theorem analyzeInRange_answers (rs : List Record) (limit : Nat) :
    (∃ a, analyzeInRange rs limit = .ok a) ↔ (arrivals rs).length ≤ 2 ^ 32 := by
  simp only [analyzeInRange_ok, exists_eq_left]

/-- The sort ends without leaving its buffers and has counted the falling pairs of places. With fewer than `2 ^ 32`
values neither the product behind the number of pairs nor the count itself leaves 64 bits. In an analysis no pair is
missing that the share of pairs in order would take away. -/
theorem inversions_exact :
    (∀ values : List Int, inversions? values = some (falling values).card ∧
      inversions values = (falling values).card ∧ inversions values ≤ pairs values.length ∧
      (values.length < 2 ^ 32 → inversions values < 2 ^ 64)) ∧
    (∀ n < 2 ^ 32, n * (n - 1) < 2 ^ 64 ∧ 2 * pairs n = n * (n - 1)) ∧
    (∀ (rs : List Record) (limit : Nat), (analyze rs limit).inversions ≤ (analyze rs limit).pairs ∧
      (analyze rs limit).accuracyPercent =
        toHundredths (accuracy (analyze rs limit).inversions (analyze rs limit).pairs)) := by
  refine ⟨?_, ?_, ?_⟩
  · intro values
    have counted := inverted_falling values
    refine ⟨?_, ?_, inversions_le_pairs values, ?_⟩
    · rw [inversions?_eq, counted]
    · rw [inversions_eq, counted]
    · intro size
      exact (inversions_le_pairs values).trans_lt (pairs_lt size.le)
  · intro n size
    exact ⟨(product_lt_iff n).mpr size.le, two_mul_pairs n⟩
  · intro rs limit
    exact ⟨analyze_inversions_le rs limit, rfl⟩

theorem inversions_exact_tail :
    inversions? [5, 1, 5, 1, 5] = some (falling [5, 1, 5, 1, 5]).card ∧ (falling [5, 1, 5, 1, 5]).card = 3 ∧
      inversions [5, 1, 5, 1, 5] < 2 ^ 64 ∧ 4294967295 < 2 ^ 32 ∧ 4294967295 * (4294967295 - 1) < 2 ^ 64 ∧
      2 * pairs 4294967295 = 4294967295 * (4294967295 - 1) := by
  have one := inversions_exact.1 [5, 1, 5, 1, 5]
  have two := inversions_exact.2.1 4294967295 (by decide)
  exact ⟨one.1, by decide, one.2.2.2 (by decide), by decide, two⟩

end CampaignSettlement.Analysis
