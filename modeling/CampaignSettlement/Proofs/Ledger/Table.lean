import Mathlib.Data.List.Nodup
import CampaignSettlement.Ledger.Table

/-!
Rows of small tables after a write. A look-up sees the last row written under its key; in a table whose
keys ascend, a sum over the rows changes by the row that is written and the one that it replaces, and look-ups
tell the whole table.
-/
namespace CampaignSettlement.Ledger.Table

variable {κ α : Type} [Ord κ]

def Ascending (t : Table κ α) : Prop := t.Pairwise fun a b => compare a.1 b.1 = .lt

theorem mem_put {k : κ} {a : α} {t : Table κ α} {row : κ × α} (h : row ∈ put k a t) :
    row = (k, a) ∨ row ∈ t := by
  induction t with
  | nil => exact Or.inl (by simpa [put] using h)
  | cons head rows ih =>
    obtain ⟨m, b⟩ := head
    cases order : compare k m with
    | lt => simpa [put, order] using h
    | eq =>
      simp only [put, order, List.mem_cons] at h
      rcases h with same | later
      · exact Or.inl same
      · exact Or.inr (List.mem_cons_of_mem _ later)
    | gt =>
      simp only [put, order, List.mem_cons] at h
      rcases h with same | later
      · exact Or.inr (by simp [same])
      · rcases ih later with same | member
        · exact Or.inl same
        · exact Or.inr (List.mem_cons_of_mem _ member)

theorem ascending_erase [BEq κ] {t : Table κ α} (h : t.Ascending) (k : κ) :
    Ascending (t.filter (·.1 != k)) :=
  List.Pairwise.filter _ h

def total (f : α → Nat) : Table κ α → Nat
  | [] => 0
  | row :: rows => f row.2 + total f rows

theorem get?_of_below {t : Table κ α} {k : κ} (below : ∀ row ∈ t, compare k row.1 = .lt) : get? k t = none := by
  induction t with
  | nil => rfl
  | cons row rows ih =>
    have first := below row (by simp)
    simp [get?, first, ih fun later member => below later (by simp [member])]

theorem total_put [Std.TransOrd κ] (f : α → Nat) {t : Table κ α} (h : t.Ascending) (k : κ) (a : α) :
    total f (put k a t) + ((get? k t).map f).getD 0 = total f t + f a := by
  induction t with
  | nil => simp [put, get?, total]
  | cons row rows ih =>
    obtain ⟨m, b⟩ := row
    obtain ⟨above, rest⟩ := List.pairwise_cons.mp h
    cases order : compare k m with
    | lt =>
      have absent : get? k rows = none :=
        get?_of_below fun later member => Std.TransCmp.lt_trans order (above later member)
      simp [put, order, get?, absent, total]
      omega
    | eq =>
      simp [put, order, get?, total]
      omega
    | gt =>
      have sums := ih rest
      simp [put, order, get?, total] at sums ⊢
      omega

variable [Std.LawfulEqOrd κ]

theorem mem_of_get? {k : κ} {a : α} {t : Table κ α} (h : get? k t = some a) : (k, a) ∈ t := by
  induction t with
  | nil => cases h
  | cons row rows ih =>
    obtain ⟨m, b⟩ := row
    by_cases here : compare k m = .eq
    · have same := Std.compare_eq_iff_eq.mp here
      simp only [get?, here, beq_self_eq_true, if_true, Option.some.injEq] at h
      simp [same, h]
    · simp only [get?, beq_iff_eq, here, if_false] at h
      exact List.mem_cons_of_mem _ (ih h)

theorem get?_put [DecidableEq κ] (k l : κ) (a : α) (t : Table κ α) :
    get? l (put k a t) = if l = k then some a else get? l t := by
  induction t with
  | nil => simp [put, get?]
  | cons row rows ih =>
    obtain ⟨m, b⟩ := row
    cases order : compare k m with
    | lt => simp [put, order, get?]
    | gt =>
      have other : k ≠ m := by
        intro same
        simp [same, Std.compare_self] at order
      simp only [put, order, get?, ih]
      by_cases here : l = m
      · subst here
        simp [Ne.symm other]
      · simp [here]
    | eq =>
      have same := Std.compare_eq_iff_eq.mp order
      subst same
      by_cases here : l = k <;> simp [put, get?, here]

theorem get?_put_self [DecidableEq κ] (k : κ) (a : α) (t : Table κ α) : get? k (put k a t) = some a := by
  rw [get?_put, if_pos rfl]

theorem put_put (k : κ) (a b : α) (t : Table κ α) : put k b (put k a t) = put k b t := by
  induction t with
  | nil => simp [put]
  | cons row rows ih =>
    obtain ⟨m, c⟩ := row
    cases order : compare k m with
    | lt => simp [put, order]
    | gt => simp only [put, order, ih]
    | eq => simp [put, order]

theorem get?_update [DecidableEq κ] (k l : κ) (f : α → α) (t : Table κ α) :
    get? l (update k f t) = if l = k then (get? l t).map f else get? l t := by
  induction t with
  | nil => simp [update, get?]
  | cons row rows ih =>
    obtain ⟨m, b⟩ := row
    by_cases here : k = m
    · subst here
      by_cases same : l = k <;> simp [update, get?, same]
    · by_cases found : l = m
      · subst found
        simp [update, get?, here, Ne.symm here]
      · simp [update, get?, here, found, ih]

theorem get?_erase [BEq κ] [LawfulBEq κ] [DecidableEq κ] (k l : κ) (t : Table κ α) :
    get? l (t.filter (·.1 != k)) = if l = k then none else get? l t := by
  induction t with
  | nil => simp [get?]
  | cons row rows ih =>
    obtain ⟨m, b⟩ := row
    by_cases gone : m = k
    · subst gone
      by_cases same : l = m <;> simp_all [get?]
    · by_cases found : l = m
      · subst found
        simp [get?, gone]
      · simp [get?, gone, found, ih]

theorem ascending_put [Std.TransOrd κ] {t : Table κ α} (h : t.Ascending) (k : κ) (a : α) :
    (put k a t).Ascending := by
  induction t with
  | nil => simp [put, Ascending]
  | cons row rows ih =>
    obtain ⟨m, b⟩ := row
    obtain ⟨above, rest⟩ := List.pairwise_cons.mp h
    cases order : compare k m with
    | lt =>
      simp only [put, order]
      refine List.pairwise_cons.mpr ⟨?_, h⟩
      intro later member
      rcases List.mem_cons.mp member with rfl | member
      · exact order
      · exact Std.TransCmp.lt_trans order (above later member)
    | eq =>
      have same := Std.compare_eq_iff_eq.mp order
      subst same
      simp only [put, order]
      exact List.pairwise_cons.mpr ⟨above, rest⟩
    | gt =>
      simp only [put, order]
      refine List.pairwise_cons.mpr ⟨?_, ih rest⟩
      intro later member
      rcases mem_put member with rfl | member
      · exact Std.OrientedCmp.lt_of_gt order
      · exact above later member

theorem total_erase [BEq κ] [LawfulBEq κ] [Std.TransOrd κ] (f : α → Nat) {t : Table κ α} (h : t.Ascending)
    (k : κ) : total f (t.filter (·.1 != k)) + ((get? k t).map f).getD 0 = total f t := by
  induction t with
  | nil => simp [get?, total]
  | cons row rows ih =>
    obtain ⟨m, b⟩ := row
    obtain ⟨above, rest⟩ := List.pairwise_cons.mp h
    have sums := ih rest
    by_cases here : m = k
    · subst here
      have absent : get? m rows = none := get?_of_below above
      simp [get?, total, absent] at sums ⊢
      omega
    · have order : compare k m ≠ .eq := fun same => here (Std.compare_eq_iff_eq.mp same).symm
      simp [get?, total, here, Ne.symm here] at sums ⊢
      omega

theorem get?_of_mem {t : Table κ α} (ascending : t.Ascending) {k : κ} {a : α} (member : (k, a) ∈ t) :
    get? k t = some a := by
  induction t with
  | nil => cases member
  | cons row rows ih =>
    obtain ⟨l, b⟩ := row
    obtain ⟨above, rest⟩ := List.pairwise_cons.mp ascending
    rcases List.mem_cons.mp member with same | later
    · cases same
      simp [get?]
    · have order : compare l k = .lt := above (k, a) later
      have other : compare k l ≠ .eq := by
        intro same
        rw [Std.compare_eq_iff_eq.mp same, Std.compare_self] at order
        cases order
      simp only [get?, beq_iff_eq, other, if_false]
      exact ih rest later

theorem mem_iff_get? {t : Table κ α} (ascending : t.Ascending) {k : κ} {a : α} : (k, a) ∈ t ↔ get? k t = some a :=
  ⟨get?_of_mem ascending, mem_of_get?⟩

theorem keys_nodup {t : Table κ α} (ascending : t.Ascending) : (keys t).Nodup := by
  refine List.Pairwise.map Prod.fst ?_ ascending
  intro a b order same
  rw [same, Std.compare_self] at order
  cases order

theorem mem_keys {t : Table κ α} {k : κ} : k ∈ keys t ↔ ∃ a, get? k t = some a := by
  induction t with
  | nil => simp [keys, get?]
  | cons row rows ih =>
    obtain ⟨l, b⟩ := row
    have inside : k ∈ keys ((l, b) :: rows) ↔ k = l ∨ k ∈ keys rows := List.mem_cons
    by_cases here : compare k l = .eq
    · have same := Std.compare_eq_iff_eq.mp here
      rw [inside]
      simp [same, get?]
    · have other : k ≠ l := fun same => here (Std.compare_eq_iff_eq.mpr same)
      simp [inside, other, get?, here, ih]

/-- Tables with ascending keys are told apart by look-ups. -/
theorem ext_get? [Std.TransOrd κ] {t u : Table κ α} (left : t.Ascending) (right : u.Ascending)
    (same : ∀ k, get? k t = get? k u) : t = u := by
  have distinct {t : Table κ α} (ascending : t.Ascending) : t.Nodup := List.Nodup.of_map Prod.fst (keys_nodup ascending)
  have perm : t.Perm u := by
    refine (List.perm_ext_iff_of_nodup (distinct left) (distinct right)).mpr ?_
    rintro ⟨k, a⟩
    rw [mem_iff_get? left, mem_iff_get? right, same]
  refine perm.eq_of_pairwise ?_ left right
  intro a b _ _ up down
  rw [Std.OrientedCmp.gt_of_lt up] at down
  cases down

end CampaignSettlement.Ledger.Table
