import Mathlib.Data.List.Forall2

/-!
Lists of things that happen: they grow at the end, or one of several grows at its own, and some of what is in them has
numbers that ascend.
-/
namespace CampaignSettlement

theorem snoc_split {α : Type} {xs before later : List α} {e x : α} (same : xs ++ [e] = before ++ x :: later) :
    xs = before ∧ e = x ∧ later = [] ∨ ∃ early, later = early ++ [e] ∧ xs = before ++ x :: early := by
  rcases List.eq_nil_or_concat later with rfl | ⟨early, last, rfl⟩
  · obtain ⟨front, final⟩ := List.append_inj' same rfl
    exact Or.inl ⟨front, List.singleton_inj.mp final, rfl⟩
  · rw [List.concat_eq_append, ← List.cons_append, ← List.append_assoc] at same
    obtain ⟨front, final⟩ := List.append_inj' same rfl
    rw [List.concat_eq_append, ← List.singleton_inj.mp final]
    exact Or.inr ⟨early, rfl, front⟩

theorem flatMap_set_perm {α β : Type} {f : α → List β} {xs : List α} {i : Nat} {x y : α} (at_i : xs[i]? = some x)
    {bs : List β} (grown : f y = f x ++ bs) : ((xs.set i y).flatMap f).Perm (xs.flatMap f ++ bs) := by
  induction xs generalizing i with
  | nil => cases at_i
  | cons z xs ih =>
    cases i with
    | zero =>
      obtain rfl : z = x := by simpa using at_i
      rw [List.set_cons_zero, List.flatMap_cons, List.flatMap_cons, grown, List.append_assoc, List.append_assoc]
      exact List.perm_append_comm.append_left _
    | succ i =>
      rw [List.set_cons_succ, List.flatMap_cons, List.flatMap_cons, List.append_assoc]
      exact (ih (by simpa using at_i)).append_left _

theorem zip_set {α β : Type} {xs : List α} {ys : List β} {i : Nat} {x : α} (at_i : xs[i]? = some x) (y : β) :
    xs.zip (ys.set i y) = (xs.zip ys).set i (x, y) := by
  induction xs generalizing ys i with
  | nil => cases at_i
  | cons z xs ih =>
    cases ys with
    | nil => rfl
    | cons w ys =>
      cases i with
      | zero =>
        obtain rfl : z = x := by simpa using at_i
        rfl
      | succ i => exact congrArg (List.cons (z, w)) (ih (by simpa using at_i))

theorem countP_forall₂ {α β : Type} {R : α → β → Prop} {p : α → Bool} {q : β → Bool}
    (same : ∀ a b, R a b → p a = q b) {as : List α} {bs : List β} (h : List.Forall₂ R as bs) :
    as.countP p = bs.countP q := by
  induction h with
  | nil => rfl
  | cons here rest ih => rw [List.countP_cons, List.countP_cons, ih, same _ _ here]

theorem idxOf_number {β : Type} [BEq β] [LawfulBEq β] {number? : β → Option Int} {xs : List β}
    (ascending : (xs.filterMap number?).Pairwise (· < ·)) {x y : β} {n m : Int} (first : x ∈ xs) (second : y ∈ xs)
    (numbered : number? x = some n) (numbered' : number? y = some m) : n < m ↔ xs.idxOf x < xs.idxOf y := by
  have earlier {x y : β} {n m : Int} (first : x ∈ xs) (second : y ∈ xs) (numbered : number? x = some n)
      (numbered' : number? y = some m) (less : xs.idxOf x < xs.idxOf y) : n < m := by
    have apart := List.pairwise_iff_getElem.mp (List.pairwise_filterMap.mp ascending) (xs.idxOf x) (xs.idxOf y)
      (List.idxOf_lt_length_of_mem first) (List.idxOf_lt_length_of_mem second) less
    rw [List.getElem_idxOf, List.getElem_idxOf] at apart
    exact apart n numbered m numbered'
  constructor
  · intro less
    rcases Nat.lt_trichotomy (xs.idxOf x) (xs.idxOf y) with before | same | after
    · exact before
    · obtain rfl := (List.idxOf_inj first).mp same
      rw [numbered] at numbered'
      cases numbered'
      omega
    · have := earlier second first numbered' numbered after
      omega
  · exact earlier first second numbered numbered'

end CampaignSettlement
