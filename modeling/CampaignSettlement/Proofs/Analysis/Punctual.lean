import CampaignSettlement.Proofs.Analysis.Arrangement
import CampaignSettlement.Proofs.Number.Rounding

/-!
A log with one partition. Its worker takes the messages by offset and draws a sequence for each, so offsets and
sequences rise together; the times they were sent are the senders' own. A pair is inverted exactly if its times fall
while its offsets rise: both sides count the same pairs, each from its own end. Without such a pair the share is a full
one, and the roundings on the way to two decimal places do not take it off a hundred.
-/
namespace CampaignSettlement.Analysis

open Ledger (Record)
open Number (Binary Near Normal double ofNat_near mul_near div_near roundHalfAway_eq)

theorem normal_double {q : ℚ} (least : 1 / 2 ≤ q) (greatest : q ≤ 2 ^ 200) : Normal double q := by
  constructor
  · decide
  · calc
      (2 : ℚ) ^ (-1021 : Int) ≤ 2 ^ (-1 : Int) := zpow_le_zpow_right₀ (by norm_num) (by norm_num)
      _ = 1 / 2 := by norm_num
      _ ≤ q := least
  · calc
      q ≤ 2 ^ (200 : Int) := by exact_mod_cast greatest
      _ < 2 ^ (971 : Int) := zpow_lt_zpow_right₀ (by norm_num) (by norm_num)

theorem near_double {q : ℚ} {x : Binary} (near : Near double q x) :
    ∃ m e, x = .finite false m e ∧ (m : ℚ) * 2 ^ e * (2 ^ 53 - 1) ≤ q * 2 ^ 53 ∧
      q * 2 ^ 53 ≤ m * 2 ^ e * (2 ^ 53 + 1) := by
  obtain ⟨m, e, rfl, close⟩ := near
  have one (y : ℚ) (close : y * 2 ^ double.width ≤ m * 2 ^ e) : y * 2 ^ 53 ≤ m * 2 ^ e := close
  have below := one _ ((mul_le_mul_of_nonneg_right (le_abs_self _) (by positivity)).trans close)
  have above := one _ ((mul_le_mul_of_nonneg_right (neg_le_abs _) (by positivity)).trans close)
  refine ⟨m, e, rfl, ?_, ?_⟩
  · linarith
  · linarith

theorem double_hundred : double.ofNat 100 = .finite false 7036874417766400 (-46) := by decide +kernel

theorem value_hundred : ((7036874417766400 : Nat) : ℚ) * 2 ^ (-46 : Int) = 100 := by norm_num

/-- The product with a hundred is rounded, and so is the share; the count, rounded once, is on both sides of it. -/
theorem accuracy_close {n : Nat} (pos : 0 < n) (size : n < 2 ^ 64) :
    ∃ m e, accuracy 0 n = .finite false m e ∧ |(m : ℚ) * 2 ^ e - 100| ≤ 1 / 1000 := by
  have some : (1 : ℚ) ≤ n := by exact_mod_cast pos
  have size : (n : ℚ) < 2 ^ 64 := by exact_mod_cast size
  obtain ⟨c, k, counted, low, high⟩ := near_double (ofNat_near (normal_double (q := n) (by linarith) (by linarith)))
  have half : (1 / 2 : ℚ) ≤ c * 2 ^ k := by linarith
  have whole : (0 : ℚ) < c * 2 ^ k := by linarith
  have nonzero : 0 < c := by
    by_contra none
    rw [Nat.eq_zero_of_not_pos none] at half
    norm_num at half
  obtain ⟨m, d, product, below, above⟩ := near_double (mul_near
    (normal_double (q := (7036874417766400 : Nat) * 2 ^ (-46 : Int) * (c * 2 ^ k))
      (by rw [value_hundred]; linarith) (by rw [value_hundred]; linarith)))
  generalize share : (m : ℚ) * 2 ^ d / (c * 2 ^ k) = w
  have parts : (m : ℚ) * 2 ^ d = w * (c * 2 ^ k) := (div_eq_iff whole.ne').mp share
  rw [value_hundred, parts] at below above
  have most : w * (2 ^ 53 - 1) ≤ 100 * 2 ^ 53 := by
    refine le_of_mul_le_mul_right ?_ whole
    linarith
  have least : 100 * 2 ^ 53 ≤ w * (2 ^ 53 + 1) := by
    refine le_of_mul_le_mul_right ?_ whole
    linarith
  have near := div_near (m := m) (d := d) (e := k) nonzero
    (normal_double (by rw [share]; linarith) (by rw [share]; linarith))
  rw [share] at near
  obtain ⟨r, e, quotient, share_low, share_high⟩ := near_double near
  refine ⟨r, e, ?_, ?_⟩
  · rw [accuracy, if_neg pos.ne', Nat.sub_zero, counted, double_hundred, product, quotient]
  · rw [abs_le]
    constructor <;> linarith

theorem toHundredths_close {m : Nat} {e : Int} (close : |(m : ℚ) * 2 ^ e - 100| ≤ 1 / 1000) :
    toHundredths (.finite false m e) = double.ofNat 100 := by
  obtain ⟨low, high⟩ := abs_le.mp close
  obtain ⟨s, f, scaled, below, above⟩ := near_double (mul_near
    (normal_double (q := m * 2 ^ e * ((7036874417766400 : Nat) * 2 ^ (-46 : Int)))
      (by rw [value_hundred]; linarith) (by rw [value_hundred]; linarith)))
  rw [value_hundred] at below above
  have tenth : |(s : ℚ) * 2 ^ f - (10000 : Nat)| < 1 / 2 := by
    rw [abs_lt]
    push_cast
    constructor <;> linarith
  unfold toHundredths
  dsimp only
  rw [double_hundred, scaled, roundHalfAway_eq tenth]
  decide +kernel

theorem accuracy_full {n : Nat} (size : n < 2 ^ 64) : toHundredths (accuracy 0 n) = double.ofNat 100 := by
  rcases Nat.eq_zero_or_pos n with rfl | pos
  · decide +kernel
  · obtain ⟨m, e, percent, close⟩ := accuracy_close pos size
    rw [percent, toHundredths_close close]

def Arrival.ahead (a b : Arrival) : Bool :=
  decide (a.sentAt < b.sentAt) || (a.sentAt == b.sentAt && decide (a.offset < b.offset))

theorem ahead_asymm (a b : Arrival) (first : a.ahead b = true) : b.ahead a = false := by
  simp only [Arrival.ahead, Bool.or_eq_true, Bool.and_eq_true, decide_eq_true_eq, beq_iff_eq, Bool.or_eq_false_iff,
    Bool.and_eq_false_iff, decide_eq_false_iff_not, beq_eq_false_iff_ne] at first ⊢
  omega

/-- What the worker of partition `p` leaves behind, in the order of its work. -/
structure Worked (p : Int) (log : List Arrival) : Prop where
  own : ∀ a ∈ log, a.partition = p
  rising : log.Pairwise fun a b => a.offset < b.offset ∧ a.sequence < b.sequence

/-- Nothing was sent before what has a lesser offset. -/
def Punctual (log : List Arrival) : Prop := log.Pairwise fun a b => a.sentAt ≤ b.sentAt

/-- An analysis that finds nothing out of order. -/
structure Exact (a : OrderAnalysis) : Prop where
  inversions : a.inversions = 0
  accuracy : a.accuracyPercent = double.ofNat 100
  violations : a.violations = []

section Worked

variable {p : Int} {log : List Arrival} {rs : List Record}

theorem Worked.together (worked : Worked p log) :
    ∀ a ∈ log, ∀ b ∈ log, a.offset < b.offset ↔ a.sequence < b.sequence := by
  have both : log.Pairwise fun a b =>
      (a.offset < b.offset ↔ a.sequence < b.sequence) ∧ (b.offset < a.offset ↔ b.sequence < a.sequence) := by
    refine worked.rising.imp ?_
    intro a b rises
    omega
  have reflexive : ∀ a ∈ log,
      (a.offset < a.offset ↔ a.sequence < a.sequence) ∧ (a.offset < a.offset ↔ a.sequence < a.sequence) := by
    simp
  have : Std.Symm fun a b : Arrival =>
      (a.offset < b.offset ↔ a.sequence < b.sequence) ∧ (b.offset < a.offset ↔ b.sequence < a.sequence) :=
    ⟨fun _ _ same => same.symm⟩
  intro a first b second
  exact (both.forall_of_forall reflexive first second).1

theorem Worked.sorted (worked : Worked p log) (perm : (arrivals rs).Perm log) :
    (arrivals rs).Pairwise fun a b => a.ahead b = true := by
  have apart : (arrivals rs).Pairwise fun a b => a.offset ≠ b.offset := by
    refine (perm.pairwise_iff fun differ => differ.symm).mpr (worked.rising.imp ?_)
    intro a b rises
    omega
  refine ((arrivals_sorted rs).and apart).imp_of_mem ?_
  intro a b first second earlier
  have one : a.partition = b.partition :=
    (worked.own a (perm.subset first)).trans (worked.own b (perm.subset second)).symm
  obtain ⟨earlier, differ⟩ := earlier
  rw [before_iff] at earlier
  simp only [Arrival.ahead, Bool.or_eq_true, Bool.and_eq_true, decide_eq_true_eq, beq_iff_eq]
  omega

/-- The pairs inverted by sequence in the order of arrival are those inverted by time in the order of work. -/
theorem Worked.inverted_eq (worked : Worked p log) (perm : (arrivals rs).Perm log) :
    inverted (sequences (arrivals rs)) = inverted (log.map Arrival.sentAt) := by
  have rises (a b : Arrival) (first : decide (a.offset < b.offset) = true) : decide (b.offset < a.offset) = false := by
    rw [decide_eq_true_eq] at first
    rw [decide_eq_false_iff_not]
    omega
  have offsets : log.Pairwise fun a b => decide (a.offset < b.offset) = true :=
    worked.rising.imp fun rises => decide_eq_true rises.1
  calc
    inverted (sequences (arrivals rs))
      = meeting (fun a b => a.ahead b && decide (b.sequence < a.sequence)) (arrivals rs) (arrivals rs) :=
        inverted_meeting ahead_asymm (worked.sorted perm)
    _ = meeting (fun a b => a.ahead b && decide (b.sequence < a.sequence)) log log := meeting_perm perm
    _ = meeting (fun a b => decide (b.offset < a.offset) && decide (a.sentAt < b.sentAt)) log log := by
        refine meeting_congr ?_
        intro a first b second
        have together := worked.together b second a first
        rw [Bool.eq_iff_iff]
        simp only [Arrival.ahead, Bool.or_eq_true, Bool.and_eq_true, decide_eq_true_eq, beq_iff_eq]
        omega
    _ = meeting (fun a b => decide (a.offset < b.offset) && decide (b.sentAt < a.sentAt)) log log := meeting_flip
    _ = inverted (log.map Arrival.sentAt) := (inverted_meeting rises offsets).symm

theorem punctual_partition_exact (worked : Worked p log) (read : (rs.filterMap Arrival.ofRecord?).Perm log)
    (limit : Nat) :
    ((∃ a, analyzeInRange rs limit = .ok a) ↔ log.length ≤ 2 ^ 32) ∧
      ∀ a, analyzeInRange rs limit = .ok a →
        a.inversions = inverted (log.map Arrival.sentAt) ∧ (Exact a ↔ Punctual log) := by
  have perm : (arrivals rs).Perm log := (List.mergeSort_perm _ _).trans read
  refine ⟨perm.length_eq ▸ analyzeInRange_answers rs limit, ?_⟩
  intro a answered
  obtain ⟨rfl, few⟩ := analyzeInRange_ok.mp answered
  have counted : (analyze rs limit).inversions = inverted (log.map Arrival.sentAt) :=
    (inversions_eq _).trans (worked.inverted_eq perm)
  refine ⟨counted, ?_, ?_⟩
  · intro exact
    rw [exact.inversions] at counted
    exact List.pairwise_map.mp (inverted_eq_zero.mp counted.symm)
  · intro punctual
    have none : inverted (log.map Arrival.sentAt) = 0 := inverted_ascending (List.pairwise_map.mpr punctual)
    have ascending := List.pairwise_map.mp (inverted_eq_zero.mp ((worked.inverted_eq perm).trans none))
    refine ⟨counted.trans none, ?_, ?_⟩
    · change toHundredths (accuracy (analyze rs limit).inversions (pairs (arrivals rs).length)) = _
      rw [counted, none]
      exact accuracy_full (pairs_lt few)
    · change (descents (arrivals rs)).take limit = []
      rw [descents_nil.mpr (List.pairwise_map.mpr ascending), List.take_nil]

end Worked

def stampedRecord (offset sentAt : Int) : Record :=
  ⟨offset + 1, 1, 10, "SUCCESS", some 0, some offset, some sentAt, some (offset + 1), ⟨⟨20742, by decide⟩, .midnight⟩⟩

def stampedArrival (offset sentAt : Int) : Arrival := ⟨10, 0, offset, sentAt, offset + 1⟩

theorem punctual_partition_exact_three :
    let log := [stampedArrival 0 100, stampedArrival 1 100, stampedArrival 2 200]
    let rs := [stampedRecord 2 200, stampedRecord 1 100, stampedRecord 0 100]
    Worked 0 log ∧ (rs.filterMap Arrival.ofRecord?).Perm log ∧ Punctual log ∧
      ∃ a, analyzeInRange rs 10 = .ok a ∧ a.inversions = inverted (log.map Arrival.sentAt) ∧
        (Exact a ↔ Punctual log) := by
  intro log rs
  have worked : Worked 0 log := ⟨by decide, by decide⟩
  have read : (rs.filterMap Arrival.ofRecord?).Perm log := by decide
  obtain ⟨answers, exact⟩ := punctual_partition_exact worked read 10
  obtain ⟨a, answered⟩ := answers.mpr (by decide)
  exact ⟨worked, read, by unfold Punctual; decide, a, answered, exact a answered⟩

/-- The second of two messages carries an earlier time than the first; each was settled as its offset came up. -/
theorem backdated_message_inverted :
    let log := [stampedArrival 0 200, stampedArrival 1 100]
    let rs := [stampedRecord 0 200, stampedRecord 1 100]
    Worked 0 log ∧ rs.filterMap Arrival.ofRecord? = log ∧
      (analyze rs 10).inversions = 1 ∧ (analyze rs 10).accuracyPercent = double.ofNat 0 ∧
      (analyze rs 10).violations = [⟨stampedArrival 1 100, stampedArrival 0 200⟩] ∧ ¬Exact (analyze rs 10) := by
  intro log rs
  have arrived : arrivals rs = [stampedArrival 1 100, stampedArrival 0 200] := by
    simp [arrivals, rs, stampedRecord, stampedArrival, Arrival.ofRecord?, Arrival.before, List.mergeSort]
  have counted : (analyze rs 10).inversions = 1 := by
    change inversions (sequences (arrivals rs)) = 1
    rw [arrived, inversions_eq]
    rfl
  refine ⟨⟨by decide, by decide⟩, by decide, counted, ?_, ?_, ?_⟩
  · change toHundredths (accuracy (analyze rs 10).inversions (pairs (arrivals rs).length)) = _
    rw [counted, arrived]
    decide +kernel
  · change (descents (arrivals rs)).take 10 = _
    rw [arrived]
    rfl
  · intro exact
    have := counted.symm.trans exact.inversions
    omega

end CampaignSettlement.Analysis
