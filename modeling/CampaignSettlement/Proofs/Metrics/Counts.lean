import Mathlib.Data.List.Induction
import CampaignSettlement.Metrics.Exposition
import CampaignSettlement.Proofs.Ledger.Table

/-!
Counts by label values: what is added under some labels is not added under others. Things that are counted one by one
have a row for each of their labels, with how many there were, and the rows add up to all of them as far as counters,
which are words of 64 bits, can tell.
-/
namespace CampaignSettlement.Metrics.Counts

open Ledger (Table)

theorem of_add (c : Counts) (labels other : List String) (n : UInt64) :
    (c.add labels n).of other = if other = labels then c.of other + n else c.of other := by
  rw [Counts.of, Counts.add, Ledger.Table.get?_put]
  split
  · next same =>
    rw [same]
    rfl
  · rfl

theorem mem_keys_add (c : Counts) (labels other : List String) (n : UInt64) :
    other ∈ (c.add labels n).keys ↔ other ∈ c.keys ∨ other = labels := by
  rw [Counts.add, Table.mem_keys, Table.mem_keys, Table.get?_put]
  by_cases same : other = labels
  · simp [same]
  · simp [same]

def total (c : Counts) : Nat := Table.total UInt64.toNat c

theorem total_add {c : Counts} (ascending : Table.Ascending c) (labels : List String) (n : UInt64) :
    (c.add labels n).total + (c.of labels).toNat = c.total + (c.of labels + n).toNat := by
  have sums := Table.total_put UInt64.toNat ascending labels (c.of labels + n)
  have row : ((Table.get? labels c).map UInt64.toNat).getD 0 = (c.of labels).toNat := by
    rw [Counts.of]
    cases Table.get? labels c <;> rfl
  rw [row] at sums
  exact sums

def tally (marks : List (List String)) : Counts := marks.foldl (fun c labels => c.add labels 1) []

theorem tally_snoc (marks : List (List String)) (labels : List String) :
    tally (marks ++ [labels]) = (tally marks).add labels 1 := by
  rw [tally, List.foldl_append]
  rfl

theorem ascending_tally (marks : List (List String)) : Table.Ascending (tally marks) := by
  induction marks using List.reverseRecOn with
  | nil => exact List.Pairwise.nil
  | append_singleton marks labels ih =>
    rw [tally_snoc]
    exact Table.ascending_put ih _ _

theorem of_tally (marks : List (List String)) (labels : List String) :
    (tally marks).of labels = .ofNat (marks.count labels) := by
  induction marks using List.reverseRecOn with
  | nil => rfl
  | append_singleton marks last ih =>
    rw [tally_snoc, of_add, ih, List.count_append, List.count_singleton]
    by_cases same : labels = last
    · rw [if_pos same, if_pos (by simp [same]), UInt64.ofNat_add]
      rfl
    · rw [if_neg same, if_neg (by simp [Ne.symm same]), Nat.add_zero]

theorem mem_keys_tally (marks : List (List String)) (labels : List String) :
    labels ∈ (tally marks).keys ↔ labels ∈ marks := by
  induction marks using List.reverseRecOn with
  | nil => exact Iff.rfl
  | append_singleton marks last ih => rw [tally_snoc, mem_keys_add, ih, List.mem_append, List.mem_singleton]

/-- A counter that is full goes on from zero, so that only multiples of what it can hold get lost. -/
theorem total_tally (marks : List (List String)) :
    ∃ rounds, (tally marks).total + rounds * UInt64.size = marks.length := by
  induction marks using List.reverseRecOn with
  | nil => exact ⟨0, rfl⟩
  | append_singleton marks labels ih =>
    obtain ⟨rounds, sum⟩ := ih
    have added := total_add (ascending_tally marks) labels 1
    have small := UInt64.toNat_lt_size ((tally marks).of labels)
    rw [tally_snoc, List.length_append, List.length_singleton]
    by_cases full : ((tally marks).of labels).toNat + 1 = UInt64.size
    · have wrapped : ((tally marks).of labels + 1).toNat = 0 := by
        rw [UInt64.toNat_add, UInt64.toNat_one, full]
        rfl
      exact ⟨rounds + 1, by rw [Nat.add_one_mul]; omega⟩
    · have risen : ((tally marks).of labels + 1).toNat = ((tally marks).of labels).toNat + 1 :=
        (UInt64.toNat_add _ _).trans (Nat.mod_eq_of_lt (Nat.lt_of_le_of_ne small full))
      exact ⟨rounds, by omega⟩

theorem total_tally_exact {marks : List (List String)} (room : marks.length < UInt64.size) :
    (tally marks).total = marks.length := by
  obtain ⟨rounds, sum⟩ := total_tally marks
  cases rounds with
  | zero => rw [← sum, Nat.zero_mul, Nat.add_zero]
  | succ rounds =>
    rw [Nat.add_one_mul] at sum
    omega

end CampaignSettlement.Metrics.Counts
