import CampaignSettlement.Proofs.Analysis.Inversions

/-!
The buffers of the sort. A buffer is the list of its runs, cut from it at the width, and a pass over the buffer is a
pass over that list. So every place that is asked for lies inside, and the inversions are counted as by runs.
-/
namespace CampaignSettlement.Analysis

def overwritten (target : Array Int) (place : Nat) (values : List Int) : Array Int :=
  (target.toList.take place ++ values ++ target.toList.drop (place + values.length)).toArray

theorem overwritten_nil (target : Array Int) (place : Nat) : overwritten target place [] = target := by
  simp [overwritten]

theorem size_overwritten {target : Array Int} {place : Nat} {values : List Int}
    (fits : place + values.length ≤ target.size) : (overwritten target place values).size = target.size := by
  simp [overwritten]
  omega

theorem overwritten_append {target : Array Int} {place : Nat} {vs : List Int} (ws : List Int)
    (fits : place + vs.length ≤ target.size) :
    overwritten (overwritten target place vs) (place + vs.length) ws = overwritten target place (vs ++ ws) := by
  have front : (target.toList.take place ++ vs).length = place + vs.length := by simp; omega
  have back : (target.toList.take place ++ vs ++ target.toList.drop (place + vs.length)).drop
      (place + vs.length + ws.length) = target.toList.drop (place + (vs ++ ws).length) := by
    rw [← front, List.drop_length_add_append, List.drop_drop, front, List.length_append, Nat.add_assoc]
  rw [overwritten, overwritten, List.toList_toArray, back, List.take_left' front, List.append_assoc,
    ← List.append_assoc, overwritten, List.append_assoc _ vs]

theorem overwritten_append_at {target : Array Int} {place next : Nat} {vs ws : List Int}
    (fits : place + vs.length ≤ target.size) (follows : ws = [] ∨ next = place + vs.length) :
    overwritten (overwritten target place vs) next ws = overwritten target place (vs ++ ws) := by
  rcases follows with rfl | rfl
  · rw [overwritten_nil, List.append_nil]
  · exact overwritten_append ws fits

theorem write_eq {target : Array Int} {place : Nat} (inside : place < target.size) (v : Int) :
    write target place v = some (overwritten target place [v]) := by
  rw [write, dif_pos inside]
  congr 1
  apply Array.toList_inj.mp
  simp [overwritten, List.set_eq_take_append_cons_drop, inside]

theorem paste_eq {target : Array Int} {place : Nat} {values : List Int} (fits : place + values.length ≤ target.size) :
    paste target place values = some (overwritten target place values) := by
  induction values generalizing target place with
  | nil => rw [paste, if_pos (by simpa using fits), overwritten_nil]
  | cons v vs ih =>
    have inside : place < target.size := by simp at fits; omega
    have here : place + [v].length ≤ target.size := inside
    have later : place + 1 + vs.length ≤ (overwritten target place [v]).size := by
      rw [size_overwritten here]
      simp at fits
      omega
    rw [paste, write_eq inside]
    exact (ih later).trans (congrArg some (overwritten_append vs here))

def between (source : Array Int) (first last : Nat) : List Int := (source.toList.drop first).take (last - first)

theorem length_between {source : Array Int} {first last : Nat} (inside : last ≤ source.size) :
    (between source first last).length = last - first := by
  simp [between]
  omega

theorem between_cons {source : Array Int} {first last : Nat} (less : first < last) (inside : first < source.size) :
    between source first last = source[first] :: between source (first + 1) last := by
  have start : source.toList.drop first = source[first] :: source.toList.drop (first + 1) := by
    rw [List.drop_eq_getElem_cons (by simpa using inside), Array.getElem_toList]
  rw [between, start, between]
  obtain ⟨k, rfl⟩ := Nat.exists_eq_add_of_lt less
  rw [show first + k + 1 - first = (first + k + 1 - (first + 1)) + 1 by omega, List.take_succ_cons]

theorem slice_eq {source : Array Int} {first last : Nat} (order : first ≤ last) (inside : last ≤ source.size) :
    slice source first last = some (between source first last) := by
  rw [slice, if_pos ⟨order, inside⟩, Array.toList_extract]
  rfl

theorem length_merge (n : Nat) (left right : List Int) :
    (merge n left right).1.length = left.length + right.length := by
  rw [(merge_perm n left right).length_eq, List.length_append]

theorem merge_le {a b : Int} (le : a ≤ b) (n : Nat) (as bs : List Int) : merge n (a :: as) (b :: bs) =
    (a :: (merge (n - 1) as (b :: bs)).1, (merge (n - 1) as (b :: bs)).2) := by
  rw [merge, if_pos le]

theorem merge_gt {a b : Int} (gt : ¬a ≤ b) (n : Nat) (as bs : List Int) : merge n (a :: as) (b :: bs) =
    (b :: (merge n (a :: as) bs).1, (merge n (a :: as) bs).2 + n) := by
  rw [merge, if_neg gt]

theorem merge_over (n : Nat) {left right : List Int} (ended : left = [] ∨ right = []) :
    merge n left right = (left ++ right, 0) := by
  rcases ended with rfl | rfl
  · rw [merge, List.nil_append]
  · cases left <;> simp [merge]

theorem mergeRuns_eq {source target : Array Int} {middle stop left right place : Nat} (count : Nat)
    (first : left ≤ middle) (second : right ≤ stop) (inside : stop ≤ source.size) (inside' : middle ≤ source.size)
    (fits : place + (middle - left) + (stop - right) ≤ target.size) :
    mergeRuns source middle stop left right place target count =
      some (overwritten target place
          (merge (middle - left) (between source left middle) (between source right stop)).1,
        count + (merge (middle - left) (between source left middle) (between source right stop)).2) := by
  induction left, right, place, target, count using mergeRuns.induct middle stop with
  | case1 left right place target count both goLeft goRight =>
    have first' := between_cons both.1 (by omega : left < source.size)
    have second' := between_cons both.2 (by omega : right < source.size)
    have written (v : Int) : write target place v = some (overwritten target place [v]) := write_eq (by omega) v
    have size (v : Int) : (overwritten target place [v]).size = target.size := size_overwritten (by simp; omega)
    have longer (v : Int) (vs : List Int) : overwritten (overwritten target place [v]) (place + 1) vs =
        overwritten target place (v :: vs) := overwritten_append vs (by simp; omega)
    rw [mergeRuns, dif_pos both, Array.getElem?_eq_getElem (by omega), Array.getElem?_eq_getElem (by omega)]
    simp only [Option.bind_eq_bind, Option.bind_some, written]
    by_cases le : source[left] ≤ source[right]
    · rw [if_pos le, goLeft _ (by omega) second (by rw [size]; omega), longer, first', second', merge_le le,
        Nat.sub_sub]
    · rw [if_neg le, goRight _ first (by omega) (by rw [size]; omega), longer, first', second', merge_gt le]
      simp only [Nat.add_assoc, Nat.add_comm]
  | case2 left right place target count ended =>
    have one : (between source left middle).length = middle - left := length_between inside'
    have two : (between source right stop).length = stop - right := length_between inside
    have fits' : place + (between source left middle).length ≤ target.size := by omega
    have empty : between source left middle = [] ∨ between source right stop = [] := by
      rw [← List.length_eq_zero_iff, ← List.length_eq_zero_iff, one, two]
      omega
    rw [mergeRuns, dif_neg ended, slice_eq first inside', slice_eq second inside, merge_over _ empty]
    simp only [Option.bind_eq_bind, Option.bind_some]
    rw [paste_eq fits', Option.bind_some, ← one, paste_eq (by rw [size_overwritten fits']; omega),
      overwritten_append _ fits']
    rfl

/-- The runs of `width` that stand in `xs`, the last of them cut short where `xs` ends. -/
def runsOf (width : Nat) (positive : 0 < width) : List Int → List Run
  | [] => []
  | x :: xs => ⟨(x :: xs).take width, ((x :: xs).take width).length⟩ :: runsOf width positive ((x :: xs).drop width)
termination_by xs => xs.length
decreasing_by simp; omega

section
variable {width : Nat} {positive : 0 < width} {xs : List Int}

theorem runsOf_some (some : xs ≠ []) :
    runsOf width positive xs = ⟨xs.take width, (xs.take width).length⟩ :: runsOf width positive (xs.drop width) := by
  cases xs with
  | nil => exact absurd rfl some
  | cons x xs => rw [runsOf]

theorem runsOf_nil : runsOf width positive [] = [] := by rw [runsOf]

theorem valuesOf_runsOf (xs : List Int) : valuesOf (runsOf width positive xs) = xs := by
  induction xs using runsOf.induct width positive with
  | case1 => rw [runsOf]; rfl
  | case2 x xs ih =>
    rw [runsOf, valuesOf, List.flatMap_cons]
    exact (congrArg _ ih).trans (List.take_append_drop width (x :: xs))

theorem mergePairs_runsOf (some : xs ≠ []) :
    mergePairs (runsOf width positive xs) =
      (⟨(merge (xs.take width).length (xs.take width) ((xs.drop width).take width)).1, (xs.take (2 * width)).length⟩ ::
          (mergePairs (runsOf width positive (xs.drop (2 * width)))).1,
        (merge (xs.take width).length (xs.take width) ((xs.drop width).take width)).2 +
          (mergePairs (runsOf width positive (xs.drop (2 * width)))).2) := by
  have twice : (xs.drop width).drop width = xs.drop (2 * width) := by rw [List.drop_drop, Nat.two_mul]
  rw [runsOf_some some]
  by_cases one : xs.drop width = []
  · have short : xs.length ≤ width := List.drop_eq_nil_iff.mp one
    have none : xs.drop (2 * width) = [] := by rw [← twice, one, List.drop_nil]
    have whole : xs.take (2 * width) = xs := List.take_of_length_le (by omega)
    rw [one, none, runsOf_nil, List.take_nil, merge_over _ (.inr rfl), whole, List.take_of_length_le short]
    simp [mergePairs]
  · have length : (xs.take width).length + ((xs.drop width).take width).length = (xs.take (2 * width)).length := by
      simp
      omega
    rw [runsOf_some one, twice, mergePairs, ← length]

theorem length_pass (positive : 0 < width) (xs : List Int) :
    (valuesOf (mergePairs (runsOf width positive xs)).1).length = xs.length := by
  rw [(mergePairs_perm _).length_eq, valuesOf_runsOf]

theorem runsOf_mergePairs (positive : 0 < width) (double : 0 < 2 * width) (xs : List Int) :
    runsOf (2 * width) double (valuesOf (mergePairs (runsOf width positive xs)).1) =
      (mergePairs (runsOf width positive xs)).1 := by
  induction xs using runsOf.induct (2 * width) double with
  | case1 => simp [runsOf_nil, mergePairs, valuesOf]
  | case2 x xs ih =>
    have some : x :: xs ≠ [] := List.cons_ne_nil x xs
    generalize x :: xs = ys at ih some
    have rest := length_pass positive (ys.drop (2 * width))
    have front := length_merge (ys.take width).length (ys.take width) ((ys.drop width).take width)
    rw [mergePairs_runsOf some]
    generalize (mergePairs (runsOf width positive (ys.drop (2 * width)))).1 = later at ih rest
    generalize merge (ys.take width).length (ys.take width) ((ys.drop width).take width) = merged at front
    simp only [List.length_take, List.length_drop] at front rest
    have long : 0 < ys.length := List.length_pos_of_ne_nil some
    have size : merged.1.length = (ys.take (2 * width)).length := by
      rw [List.length_take]
      omega
    have values : valuesOf (⟨merged.1, (ys.take (2 * width)).length⟩ :: later) = merged.1 ++ valuesOf later := rfl
    have cut : (merged.1 ++ valuesOf later).take (2 * width) = merged.1 ∧
        (merged.1 ++ valuesOf later).drop (2 * width) = valuesOf later := by
      rcases Nat.lt_or_ge ys.length (2 * width) with short | full
      · have none : valuesOf later = [] := List.length_eq_zero_iff.mp (by omega)
        rw [none, List.append_nil]
        exact ⟨List.take_of_length_le (by omega), List.drop_eq_nil_iff.mpr (by omega)⟩
      · have whole : merged.1.length = 2 * width := by omega
        exact ⟨List.take_left' whole, List.drop_left' whole⟩
    have filled : merged.1 ++ valuesOf later ≠ [] :=
      List.append_ne_nil_of_left_ne_nil (List.ne_nil_of_length_pos (by rw [size, List.length_take]; omega)) _
    rw [values, runsOf_some filled, cut.1, cut.2, ih, size]

theorem between_run {source : Array Int} {n : Nat} (size : source.size = n) (start width : Nat) :
    between source (min start n) (min (start + width) n) = (source.toList.drop start).take width := by
  have all : source.toList.length = n := by rw [Array.length_toList, size]
  rw [between]
  rcases Nat.lt_or_ge n start with outside | inside
  · rw [Nat.min_eq_right (by omega), Nat.min_eq_right (by omega), Nat.sub_self, List.take_zero,
      List.drop_of_length_le (by omega), List.take_nil]
  · rw [Nat.min_eq_left inside]
    rcases Nat.lt_or_ge (start + width) n with whole | short
    · rw [Nat.min_eq_left (Nat.le_of_lt whole), Nat.add_sub_cancel_left]
    · rw [Nat.min_eq_right short, List.take_of_length_le (by simp; omega), List.take_of_length_le (by simp; omega)]

theorem mergeRuns_start (width : Nat) {source target : Array Int} {n start : Nat} (count : Nat)
    (size : source.size = n) (size' : target.size = n) (inside : start < n) :
    let xs := source.toList.drop start
    let merged := merge (xs.take width).length (xs.take width) ((xs.drop width).take width)
    let middle := min (start + width) n
    mergeRuns source middle (min (start + 2 * width) n) start middle start target count =
      some (overwritten target start merged.1, count + merged.2) := by
  intro xs merged middle
  have first := between_run size start width
  have second := between_run size (start + width) width
  have left : (between source start (min (start + width) n)).length = min (start + width) n - start :=
    length_between (by omega)
  rw [Nat.min_eq_left (Nat.le_of_lt inside)] at first
  rw [Nat.add_assoc, ← Nat.two_mul, ← List.drop_drop] at second
  rw [mergeRuns_eq count (by omega) (by omega) (by omega) (by omega) (by omega), ← left, first, second]

theorem mergePass_eq {source target : Array Int} {n start : Nat} (count : Nat) (size : source.size = n)
    (size' : target.size = n) :
    mergePass source n width positive start target count =
      some (overwritten target start (valuesOf (mergePairs (runsOf width positive (source.toList.drop start))).1),
        count + (mergePairs (runsOf width positive (source.toList.drop start))).2) := by
  induction start, target, count using mergePass.induct n width positive with
  | case1 start target count inside ih =>
    have length : (source.toList.drop start).length = n - start := by rw [List.length_drop, Array.length_toList, size]
    have filled : source.toList.drop start ≠ [] := List.ne_nil_of_length_pos (by omega)
    have front := mergeRuns_start width count size size' inside
    have later := length_pass positive ((source.toList.drop start).drop (2 * width))
    rw [mergePass, if_pos inside, mergePairs_runsOf filled]
    dsimp only at front ⊢
    rw [front]
    have merged := length_merge ((source.toList.drop start).take width).length ((source.toList.drop start).take width)
      (((source.toList.drop start).drop width).take width)
    generalize merge ((source.toList.drop start).take width).length ((source.toList.drop start).take width)
      (((source.toList.drop start).drop width).take width) = first at merged
    simp only [List.length_take, List.length_drop, length] at merged later
    have fits : start + first.1.length ≤ target.size := by omega
    have follows : valuesOf (mergePairs (runsOf width positive ((source.toList.drop start).drop (2 * width)))).1 = [] ∨
        start + 2 * width = start + first.1.length := by
      rw [← List.length_eq_zero_iff, later]
      omega
    simp only [Option.bind_eq_bind, Option.bind_some]
    rw [ih _ _ ((size_overwritten fits).trans size'), ← List.drop_drop, overwritten_append_at fits follows,
      Nat.add_assoc]
    rfl
  | case2 start target count outside =>
    have none : source.toList.drop start = [] := List.drop_of_length_le (by simp; omega)
    rw [mergePass, if_neg outside, none, runsOf_nil]
    simp [mergePairs, valuesOf, overwritten_nil]

theorem mergePasses_eq {source target : Array Int} {n : Nat} (count : Nat) (size : source.size = n)
    (size' : target.size = n) :
    mergePasses n width positive source target count =
      some (count + mergeAll (runsOf width positive source.toList)) := by
  induction width, positive, source, target, count using mergePasses.induct n with
  | case1 width positive source target count wide ih =>
    have length : source.toList.length = n := by rw [Array.length_toList, size]
    have rest : source.toList.drop width ≠ [] := List.ne_nil_of_length_pos (by rw [List.length_drop]; omega)
    have pass : mergePass source n width positive 0 target count = _ := mergePass_eq count size size'
    have values := length_pass positive source.toList
    have sorted : overwritten target 0 (valuesOf (mergePairs (runsOf width positive source.toList)).1) =
        (valuesOf (mergePairs (runsOf width positive source.toList)).1).toArray := by
      simp [overwritten, values, size, size']
    have wider := runsOf_mergePairs positive (by omega) source.toList
    have all : mergeAll (runsOf width positive source.toList) = (mergePairs (runsOf width positive source.toList)).2 +
        mergeAll (mergePairs (runsOf width positive source.toList)).1 := by
      rw [runsOf_some (List.ne_nil_of_length_pos (by omega)), runsOf_some rest, mergeAll]
    rw [List.drop_zero, sorted] at pass
    rw [mergePasses, if_pos wide, pass]
    dsimp only [Option.bind_eq_bind, Option.bind_some]
    rw [ih _ _ (by simp [values, size]) size, wider, all, Nat.add_assoc]
  | case2 width positive source target count narrow =>
    have length : source.toList.length = n := by rw [Array.length_toList, size]
    have one : mergeAll (runsOf width positive source.toList) = 0 := by
      generalize source.toList = xs at length
      cases xs with
      | nil => simp [runsOf_nil, mergeAll]
      | cons x xs => rw [runsOf, List.drop_of_length_le (by omega), runsOf_nil]; simp [mergeAll]
    rw [mergePasses, if_neg narrow, one]
    rfl

end

theorem runsOf_one (values : List Int) : ∀ r ∈ runsOf 1 Nat.one_pos values, r.Sound := by
  induction values using runsOf.induct 1 Nat.one_pos with
  | case1 => rw [runsOf_nil]; simp
  | case2 x xs ih =>
    rw [runsOf]
    exact List.forall_mem_cons.mpr ⟨⟨rfl, List.pairwise_singleton _ _⟩, ih⟩

theorem inversions?_eq (values : List Int) : inversions? values = some (inverted values) := by
  rw [inversions?]
  split
  case isTrue few =>
    match values, few with
    | [], _ => rfl
    | [v], _ => rfl
  case isFalse many =>
    have runs := mergeAll_counts (runsOf_one values)
    rw [valuesOf_runsOf] at runs
    rw [mergePasses_eq 0 (by simp) (by simp), List.toList_toArray, runs, Nat.zero_add]

theorem inversions_eq (values : List Int) : inversions values = inverted values := by
  rw [inversions, inversions?_eq, Option.getD_some]

example : inversions [3, 1, 2] = 2 := by
  rw [inversions_eq]
  rfl

end CampaignSettlement.Analysis
