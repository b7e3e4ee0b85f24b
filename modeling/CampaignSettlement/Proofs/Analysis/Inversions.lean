import Mathlib.Algebra.BigOperators.Group.List.Basic
import Mathlib.Algebra.GroupWithZero.Nat
import CampaignSettlement.Analysis.Inversions

/-!
Counting inversions by merging, told by lists of runs instead of buffers. Runs that are ascending have no inversions
inside; those between two runs do not depend on the order inside either, so merging two runs counts them all and changes
nothing for the runs that follow.
-/
namespace CampaignSettlement.Analysis

structure Run where
  values : List Int
  length : Nat
deriving DecidableEq, Repr

def merge (n : Nat) (left right : List Int) : List Int × Nat :=
  match left, right with
  | [], right => (right, 0)
  | left, [] => (left, 0)
  | a :: as, b :: bs =>
    if a ≤ b then
      let (rest, count) := merge (n - 1) as (b :: bs)
      (a :: rest, count)
    else
      let (rest, count) := merge n (a :: as) bs
      (b :: rest, count + n)
termination_by left.length + right.length

def mergePairs : List Run → List Run × Nat
  | a :: b :: rest =>
    let (values, count) := merge a.length a.values b.values
    let (runs, more) := mergePairs rest
    (⟨values, a.length + b.length⟩ :: runs, count + more)
  | runs => (runs, 0)

theorem length_mergePairs_le (runs : List Run) : (mergePairs runs).1.length ≤ runs.length := by
  fun_induction mergePairs runs with
  | case1 a b rest values count h runs more h' ih => simp_all; omega
  | case2 runs => simp

def mergeAll (runs : List Run) : Nat :=
  match runs with
  | a :: b :: rest =>
    let pass := mergePairs (a :: b :: rest)
    pass.2 + mergeAll pass.1
  | _ => 0
termination_by runs.length
decreasing_by
  have h := length_mergePairs_le rest
  simp only [mergePairs, List.length_cons]
  omega

def inverted : List Int → Nat
  | [] => 0
  | x :: xs => xs.countP (fun y => decide (y < x)) + inverted xs

def crossing (xs ys : List Int) : Nat := (xs.map fun x => ys.countP fun y => decide (y < x)).sum

theorem crossing_perm {xs xs' ys ys' : List Int} (left : xs.Perm xs') (right : ys.Perm ys') :
    crossing xs ys = crossing xs' ys' := by
  have same : (fun x => ys.countP fun y => decide (y < x)) = fun x => ys'.countP fun y => decide (y < x) :=
    funext fun x => right.countP_eq _
  rw [crossing, crossing, same]
  exact (left.map _).sum_eq

theorem inverted_append (xs ys : List Int) : inverted (xs ++ ys) = inverted xs + crossing xs ys + inverted ys := by
  induction xs with
  | nil => simp [inverted, crossing]
  | cons x xs ih =>
    simp only [List.cons_append, inverted, List.countP_append, ih, crossing, List.map_cons, List.sum_cons]
    omega

theorem inverted_ascending {xs : List Int} (ascending : xs.Pairwise (· ≤ ·)) : inverted xs = 0 := by
  induction ascending with
  | nil => rfl
  | @cons x xs least _ ih =>
    have none : xs.countP (fun y => decide (y < x)) = 0 := by
      refine List.countP_eq_zero.mpr ?_
      intro y member
      have := least y member
      simpa using this
    rw [inverted, none, ih]

theorem merge_perm (n : Nat) (left right : List Int) : (merge n left right).1.Perm (left ++ right) := by
  fun_induction merge n left right with
  | case1 => exact .refl _
  | case2 => rw [List.append_nil]
  | case3 n a as b bs le rest count same ih =>
    rw [same] at ih
    exact ih.cons a
  | case4 n a as b bs gt rest count same ih =>
    rw [same] at ih
    exact (ih.cons b).trans List.perm_middle.symm

theorem merge_ascending (n : Nat) {left right : List Int} (first : left.Pairwise (· ≤ ·))
    (second : right.Pairwise (· ≤ ·)) : (merge n left right).1.Pairwise (· ≤ ·) := by
  fun_induction merge n left right with
  | case1 => exact second
  | case2 => exact first
  | case3 n a as b bs le rest count same ih =>
    have merged := merge_perm (n - 1) as (b :: bs)
    rw [same] at ih merged
    obtain ⟨least, first⟩ := List.pairwise_cons.mp first
    refine List.pairwise_cons.mpr ⟨?_, ih first second⟩
    intro x member
    rcases List.mem_append.mp (merged.mem_iff.mp member) with own | other
    · exact least x own
    · rcases List.mem_cons.mp other with rfl | later
      · exact le
      · exact Int.le_trans le ((List.pairwise_cons.mp second).1 x later)
  | case4 n a as b bs gt rest count same ih =>
    have merged := merge_perm n (a :: as) bs
    rw [same] at ih merged
    obtain ⟨least, second⟩ := List.pairwise_cons.mp second
    refine List.pairwise_cons.mpr ⟨?_, ih first second⟩
    intro x member
    rcases List.mem_append.mp (merged.mem_iff.mp member) with own | other
    · rcases List.mem_cons.mp own with rfl | later
      · omega
      · have := (List.pairwise_cons.mp first).1 x later
        omega
    · exact least x other

theorem crossing_nil (xs : List Int) : crossing xs [] = 0 := by
  simp [crossing]

/-- A value of the right run that goes ahead is less than all that is left of the left one, and no other. -/
theorem merge_counts {left right : List Int} (first : left.Pairwise (· ≤ ·)) (second : right.Pairwise (· ≤ ·)) :
    (merge left.length left right).2 = crossing left right := by
  generalize length : left.length = n
  fun_induction merge n left right with
  | case1 => rfl
  | case2 => exact (crossing_nil _).symm
  | case3 n a as b bs le rest count same ih =>
    have none : (b :: bs).countP (fun y => decide (y < a)) = 0 := by
      refine List.countP_eq_zero.mpr ?_
      intro y member
      have least : b ≤ y := by
        rcases List.mem_cons.mp member with rfl | later
        · exact Int.le_refl _
        · exact (List.pairwise_cons.mp second).1 y later
      simpa using Int.le_trans le least
    have counted := ih (List.pairwise_cons.mp first).2 second (Nat.eq_sub_of_add_eq length)
    rw [same] at counted
    rw [crossing, List.map_cons, List.sum_cons, none, Nat.zero_add]
    exact counted
  | case4 n a as b bs gt rest count same ih =>
    have counted := ih first (List.pairwise_cons.mp second).2 length
    rw [same] at counted
    have greater : ∀ x ∈ a :: as, b < x := by
      intro x member
      rcases List.mem_cons.mp member with rfl | later
      · omega
      · have := (List.pairwise_cons.mp first).1 x later
        omega
    have one_each (xs : List Int) (greater : ∀ x ∈ xs, b < x) : crossing xs (b :: bs) = crossing xs bs + xs.length := by
      induction xs with
      | nil => rfl
      | cons x xs ih =>
        have rest := ih fun y member => greater y (List.mem_cons_of_mem _ member)
        have here : decide (b < x) = true := decide_eq_true (greater x List.mem_cons_self)
        simp only [crossing, List.map_cons, List.sum_cons, List.countP_cons, here, if_true, List.length_cons] at rest ⊢
        omega
    change count + n = _
    rw [one_each _ greater, ← counted, length]

structure Run.Sound (r : Run) : Prop where
  length : r.length = r.values.length
  ascending : r.values.Pairwise (· ≤ ·)

def valuesOf (runs : List Run) : List Int := runs.flatMap Run.values

theorem mergePairs_sound {runs : List Run} (sound : ∀ r ∈ runs, r.Sound) : ∀ r ∈ (mergePairs runs).1, r.Sound := by
  fun_induction mergePairs runs with
  | case1 a b rest values count merged runs more same ih =>
    have first := sound a List.mem_cons_self
    have second := sound b (List.mem_cons_of_mem _ List.mem_cons_self)
    have ascending := merge_ascending a.length first.ascending second.ascending
    have perm := merge_perm a.length a.values b.values
    have later := ih fun r member => sound r (List.mem_cons_of_mem _ (List.mem_cons_of_mem _ member))
    rw [merged] at ascending perm
    rw [same] at later
    intro r member
    rcases List.mem_cons.mp member with rfl | member
    · refine ⟨?_, ascending⟩
      rw [perm.length_eq, List.length_append, first.length, second.length]
    · exact later r member
  | case2 runs => exact sound

theorem mergePairs_perm (runs : List Run) : (valuesOf (mergePairs runs).1).Perm (valuesOf runs) := by
  fun_induction mergePairs runs with
  | case1 a b rest values count merged runs more same ih =>
    have perm := merge_perm a.length a.values b.values
    rw [merged] at perm
    rw [same] at ih
    simp only [valuesOf, List.flatMap_cons, ← List.append_assoc] at ih ⊢
    exact perm.append ih
  | case2 runs => exact .refl _

theorem mergePairs_counts {runs : List Run} (sound : ∀ r ∈ runs, r.Sound) :
    (mergePairs runs).2 + inverted (valuesOf (mergePairs runs).1) = inverted (valuesOf runs) := by
  fun_induction mergePairs runs with
  | case1 a b rest values count merged runs more same ih =>
    have first := sound a List.mem_cons_self
    have second := sound b (List.mem_cons_of_mem _ List.mem_cons_self)
    have counted := merge_counts first.ascending second.ascending
    have perm := merge_perm a.length a.values b.values
    have none := inverted_ascending (merge_ascending a.length first.ascending second.ascending)
    have later := ih fun r member => sound r (List.mem_cons_of_mem _ (List.mem_cons_of_mem _ member))
    have others := mergePairs_perm rest
    rw [first.length] at merged
    rw [first.length] at perm none
    rw [merged] at counted perm none
    rw [same] at later others
    have cross := crossing_perm perm others
    simp only [valuesOf, List.flatMap_cons] at later cross ⊢
    rw [inverted_append, none, cross, ← List.append_assoc, inverted_append, inverted_append,
      inverted_ascending first.ascending, inverted_ascending second.ascending]
    omega
  | case2 runs => exact Nat.zero_add _

theorem mergeAll_counts {runs : List Run} (sound : ∀ r ∈ runs, r.Sound) : mergeAll runs = inverted (valuesOf runs) := by
  fun_induction mergeAll runs with
  | case1 a b rest pass ih =>
    rw [ih (mergePairs_sound sound)]
    exact mergePairs_counts sound
  | case2 runs one =>
    match runs with
    | [] => rfl
    | [a] =>
      have own := (sound a List.mem_cons_self).ascending
      rw [valuesOf, List.flatMap_singleton, inverted_ascending own]
    | a :: b :: rest => exact absurd rfl (one a b rest)

end CampaignSettlement.Analysis
