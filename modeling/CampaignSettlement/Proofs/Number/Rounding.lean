import Mathlib.Algebra.Order.Field.Power
import Mathlib.Tactic.FieldSimp
import Mathlib.Tactic.Linarith
import Mathlib.Tactic.Positivity
import Mathlib.Tactic.Ring
import CampaignSettlement.Number.Binary

/-!
What rounding costs. A value in the normal range of a format is rounded to a number that differs from it by a
half of its last place at most, so by the same share of itself whatever its size. A chain of operations is bounded
by carrying that share along, without a look at the exponents in between.
-/
namespace CampaignSettlement.Number

def ratio (r : Nat × Nat) : ℚ := r.1 / r.2

theorem ratio_scaled (num : Nat) {den : Nat} (pos : 0 < den) (e : Int) :
    ratio (scaled num den e) = (num : ℚ) / den / 2 ^ e ∧ 0 < (scaled num den e).2 := by
  have two : (2 : ℚ) ≠ 0 := by norm_num
  unfold scaled ratio
  split
  case isTrue up =>
    lift e to Nat using up
    constructor
    · simp [Nat.pow_eq, div_div]
    · exact Nat.mul_pos pos (Nat.pow_pos Nat.two_pos)
  case isFalse down =>
    obtain ⟨k, rfl⟩ : ∃ k : Nat, e = -k := ⟨(-e).toNat, by omega⟩
    constructor
    · simp [Nat.pow_eq, mul_div_right_comm]
    · exact pos

theorem ratio_dyadic (m : Nat) (e : Int) : ratio (dyadic m e) = m * 2 ^ e ∧ 0 < (dyadic m e).2 := by
  unfold dyadic ratio
  split
  case isTrue up =>
    lift e to Nat using up
    simp [Nat.pow_eq]
  case isFalse down =>
    obtain ⟨k, rfl⟩ : ∃ k : Nat, e = -k := ⟨(-e).toNat, by omega⟩
    simp [Nat.pow_eq, div_eq_mul_inv]

theorem nearest_close (num : Nat) {den : Nat} (pos : 0 < den) : |(nearest num den : ℚ) - num / den| ≤ 1 / 2 := by
  have parts := Nat.div_add_mod num den
  have rest := Nat.mod_lt num pos
  have positive : (0 : ℚ) < den := by exact_mod_cast pos
  have bounds : den * (2 * nearest num den) ≤ 2 * num + den ∧ 2 * num ≤ den * (2 * nearest num den) + den := by
    unfold nearest
    generalize num / den = q at parts ⊢
    generalize num % den = r at parts rest ⊢
    subst parts
    have even : q % 2 < 2 := Nat.mod_lt q Nat.two_pos
    dsimp only
    split_ifs with low high
    · constructor <;> nlinarith
    · constructor <;> nlinarith
    · have half : 2 * r = den := by omega
      rcases Nat.mod_two_eq_zero_or_one q with same | same <;> rw [same] <;> constructor <;> nlinarith
  have lower : (den : ℚ) * (2 * nearest num den) ≤ 2 * num + den := by exact_mod_cast bounds.1
  have upper : (2 : ℚ) * num ≤ den * (2 * nearest num den) + den := by exact_mod_cast bounds.2
  have above : (num : ℚ) / den ≤ nearest num den + 1 / 2 := by
    rw [div_le_iff₀ positive]
    linarith
  have below : (nearest num den : ℚ) - 1 / 2 ≤ num / den := by
    rw [le_div_iff₀ positive]
    linarith
  rw [abs_le]
  constructor <;> linarith

theorem ratio_between {num den : Nat} (some : 0 < num) (pos : 0 < den) :
    (2 : ℚ) ^ ((num.log2 : Int) - den.log2 - 1) < num / den ∧
      (num : ℚ) / den < 2 ^ ((num.log2 : Int) - den.log2 + 1) := by
  have two : (2 : ℚ) ≠ 0 := by norm_num
  have positive : (0 : ℚ) < den := by exact_mod_cast pos
  constructor
  · have num_low : (2 : ℚ) ^ num.log2 ≤ num := by exact_mod_cast Nat.log2_self_le some.ne'
    have den_high : (den : ℚ) < 2 ^ (den.log2 + 1) := by exact_mod_cast Nat.lt_log2_self
    rw [lt_div_iff₀ positive, sub_sub, zpow_sub₀ two, div_mul_eq_mul_div, div_lt_iff₀ (by positivity)]
    norm_cast at num_low den_high ⊢
    exact Nat.mul_lt_mul_of_le_of_lt num_low den_high (by positivity)
  · have num_high : (num : ℚ) < 2 ^ (num.log2 + 1) := by exact_mod_cast Nat.lt_log2_self
    have den_low : (2 : ℚ) ^ den.log2 ≤ den := by exact_mod_cast Nat.log2_self_le pos.ne'
    rw [div_lt_iff₀ positive, sub_add_eq_add_sub, zpow_sub₀ two, div_mul_eq_mul_div, lt_div_iff₀ (by positivity)]
    norm_cast at num_high den_low ⊢
    exact Nat.mul_lt_mul_of_lt_of_le num_high den_low (by positivity)

theorem log2Ratio_spec {num den : Nat} (some : 0 < num) (pos : 0 < den) :
    (2 : ℚ) ^ log2Ratio num den ≤ num / den ∧ (num : ℚ) / den < 2 ^ (log2Ratio num den + 1) := by
  obtain ⟨low, high⟩ := ratio_between some pos
  have positive : (0 : ℚ) < den := by exact_mod_cast pos
  unfold log2Ratio
  dsimp only
  generalize (num.log2 : Int) - den.log2 = l at low high ⊢
  obtain ⟨value, below⟩ := ratio_scaled num pos l
  generalize scaled num den l = s at value below ⊢
  have unit : (0 : ℚ) < 2 ^ l := by positivity
  have under : (0 : ℚ) < s.2 := by exact_mod_cast below
  rw [ratio, div_eq_div_iff under.ne' unit.ne'] at value
  split
  case isTrue less =>
    have less : (s.1 : ℚ) < s.2 := by exact_mod_cast less
    constructor
    · exact low.le
    · rw [sub_add_cancel]
      nlinarith
  case isFalse enough =>
    have enough : (s.2 : ℚ) ≤ s.1 := by exact_mod_cast Nat.not_lt.mp enough
    constructor
    · nlinarith
    · exact high

/-- For a value that is scaled to `w + 1` binary digits, a half is a small share of the integer it is rounded to. -/
theorem scaled_close {q : ℚ} {w m : Nat} {l : Int} (low : 2 ^ (l + w) ≤ q) (close : |(m : ℚ) - q / 2 ^ l| ≤ 1 / 2) :
    |(m : ℚ) * 2 ^ l - q| * 2 ^ (w + 1) ≤ m * 2 ^ l := by
  have unit : (0 : ℚ) < 2 ^ l := by positivity
  have share : (2 : ℚ) ^ w ≤ q / 2 ^ l := by
    rw [le_div_iff₀ unit, ← zpow_natCast, ← zpow_add₀ (by norm_num), add_comm]
    exact low
  have less : (2 : ℚ) ^ w < m + 1 := by linarith [(abs_le.mp close).1]
  have less : 2 ^ w < m + 1 := by exact_mod_cast less
  have full : (2 : ℚ) ^ w ≤ m := by exact_mod_cast Nat.lt_succ_iff.mp less
  have scaled : (m : ℚ) * 2 ^ l - q = (m - q / 2 ^ l) * 2 ^ l := by field_simp
  rw [scaled, abs_mul, abs_of_pos unit]
  calc
    |(m : ℚ) - q / 2 ^ l| * 2 ^ l * 2 ^ (w + 1) = 2 * |(m : ℚ) - q / 2 ^ l| * 2 ^ w * 2 ^ l := by ring
    _ ≤ 1 * 2 ^ w * 2 ^ l := by gcongr; linarith
    _ ≤ m * 2 ^ l := by gcongr; linarith

/-- A number of the format within a share of one half of the last place from `q`. -/
def Near (f : Format) (q : ℚ) (x : Binary) : Prop :=
  ∃ m e, x = .finite false m e ∧ |(m : ℚ) * 2 ^ e - q| * 2 ^ f.width ≤ m * 2 ^ e

/-- `q` is so far from both ends of the format's range that it is rounded to a full significand. -/
structure Normal (f : Format) (q : ℚ) : Prop where
  wide : 0 < f.width
  least : 2 ^ (f.least + f.width) ≤ q
  greatest : q < 2 ^ f.greatest

theorem round_near {f : Format} {num den : Nat} (pos : 0 < den) (normal : Normal f (num / den)) :
    Near f (num / den) (f.round false num den) := by
  obtain ⟨wide, least, greatest⟩ := normal
  have two : (1 : ℚ) < 2 := by norm_num
  have some : 0 < num := by
    by_contra none
    rw [Nat.eq_zero_of_not_pos none, Nat.cast_zero, zero_div] at least
    exact absurd least (not_le.mpr (by positivity))
  obtain ⟨low, high⟩ := log2Ratio_spec some pos
  have enough := (zpow_lt_zpow_iff_right₀ two).mp (least.trans_lt high)
  have bounded := (zpow_lt_zpow_iff_right₀ two).mp (low.trans_lt greatest)
  obtain ⟨w, width⟩ : ∃ w, f.width = w + 1 := ⟨f.width - 1, by omega⟩
  obtain ⟨l, placed⟩ : ∃ l : Int, log2Ratio num den = l + w := ⟨log2Ratio num den - w, by omega⟩
  rw [placed] at low high bounded
  have last : max f.least (log2Ratio num den - (f.width - 1 : Nat)) = l := by omega
  obtain ⟨value, below⟩ := ratio_scaled num pos l
  unfold Format.round
  rw [if_neg some.ne', last]
  dsimp only
  generalize scaled num den l = s at value below ⊢
  have close := nearest_close s.1 below
  change |(nearest s.1 s.2 : ℚ) - ratio s| ≤ _ at close
  rw [value] at close
  generalize (num : ℚ) / den = q at *
  generalize nearest s.1 s.2 = m at close ⊢
  have off := scaled_close low close
  rw [← width] at off
  split_ifs with carry beyond beyond
  · dsimp only at beyond
    omega
  · refine ⟨_, _, rfl, ?_⟩
    have same : ((Nat.pow 2 (f.width - 1) : Nat) : ℚ) * 2 ^ (l + 1) = m * 2 ^ l := by
      rw [carry, width, zpow_add_one₀ (by norm_num)]
      simp only [Nat.pow_eq, Nat.add_sub_cancel, Nat.pow_succ]
      push_cast
      ring
    rw [same]
    exact off
  · dsimp only at beyond
    omega
  · exact ⟨m, l, rfl, off⟩

theorem ofNat_near {f : Format} {n : Nat} (normal : Normal f n) : Near f n (f.ofNat n) := by
  have whole : ((n : ℚ) / (1 : Nat)) = n := by simp
  rw [← whole] at normal ⊢
  exact round_near Nat.one_pos normal

theorem mul_near {f : Format} {m n : Nat} {d e : Int} (normal : Normal f (m * 2 ^ d * (n * 2 ^ e))) :
    Near f (m * 2 ^ d * (n * 2 ^ e)) (.mul f (.finite false m d) (.finite false n e)) := by
  obtain ⟨value, pos⟩ := ratio_dyadic (m * n) (d + e)
  have product : ratio (dyadic (m * n) (d + e)) = m * 2 ^ d * (n * 2 ^ e) := by
    rw [value, zpow_add₀ (by norm_num)]
    push_cast
    ring
  rw [← product] at normal ⊢
  exact round_near pos normal

theorem div_near {f : Format} {m n : Nat} {d e : Int} (pos : 0 < n) (normal : Normal f (m * 2 ^ d / (n * 2 ^ e))) :
    Near f (m * 2 ^ d / (n * 2 ^ e)) (.div f (.finite false m d) (.finite false n e)) := by
  obtain ⟨value, below⟩ := ratio_dyadic m (d - e)
  have quotient : ((dyadic m (d - e)).1 : ℚ) / ((dyadic m (d - e)).2 * n : Nat) = m * 2 ^ d / (n * 2 ^ e) := by
    rw [Nat.cast_mul, ← div_div]
    change ratio (dyadic m (d - e)) / n = _
    rw [value, zpow_sub₀ (by norm_num)]
    field_simp
  rw [← quotient] at normal ⊢
  unfold Binary.div
  dsimp only
  rw [if_neg pos.ne']
  exact round_near (Nat.mul_pos below pos) normal

theorem roundHalfAway_eq {f : Format} {m k : Nat} {e : Int} (close : |(m : ℚ) * 2 ^ e - k| < 1 / 2) :
    Binary.roundHalfAway f (.finite false m e) = f.ofNat k := by
  obtain ⟨value, pos⟩ := ratio_dyadic m e
  rw [← value] at close
  unfold Binary.roundHalfAway
  dsimp only
  generalize dyadic m e = r at close pos ⊢
  have positive : (0 : ℚ) < r.2 := by exact_mod_cast pos
  obtain ⟨below, above⟩ := abs_lt.mp close
  rw [neg_lt_sub_iff_lt_add, ratio, ← sub_lt_iff_lt_add', lt_div_iff₀ positive] at below
  rw [sub_lt_iff_lt_add, ratio, div_lt_iff₀ positive] at above
  have floor : (2 * r.1 + r.2) / (2 * r.2) = k := by
    refine Nat.div_eq_of_lt_le ?_ ?_
    · have : (k : ℚ) * (2 * r.2) ≤ 2 * r.1 + r.2 := by linarith
      exact_mod_cast this
    · have : 2 * r.1 + r.2 < ((k : ℚ) + 1) * (2 * r.2) := by linarith
      exact_mod_cast this
  rw [floor, Format.ofNat]

end CampaignSettlement.Number
