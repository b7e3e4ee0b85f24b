import Mathlib.Tactic
import CampaignSettlement.Text.Blank

/-!
Decimal digits as characters: their numbers, and what reading on adds.
-/
namespace CampaignSettlement.Text

theorem digit_bounds {c : Char} (digit : c.isDigit = true) : 48 ≤ c.toNat ∧ c.toNat ≤ 57 := by
  simpa [Char.isDigit, UInt32.le_iff_toNat_le] using digit

theorem isDigit_of {c : Char} (digit : c.isDigit = true) : isDigit c = true := by
  simpa [Char.isDigit, isDigit, Char.le_def, UInt32.le_iff_toNat_le] using digit

theorem isBlank_digit {c : Char} (digit : c.isDigit = true) : isBlank c = false := by
  have bounds := digit_bounds digit
  simp only [isBlank, Bool.or_eq_false_iff, Bool.and_eq_false_iff, decide_eq_false_iff_not, beq_eq_false_iff_ne]
  omega

theorem toDigits_digits (n : Nat) : ∀ c ∈ Nat.toDigits 10 n, c.isDigit = true := fun _ member =>
  Nat.isDigit_of_mem_toDigits (by decide) (by decide) member

theorem le_ofDigitChars (cs : List Char) (n : Nat) : n ≤ Nat.ofDigitChars 10 cs n := by
  rw [Nat.ofDigitChars_eq_ofDigitChars_zero]
  have := Nat.le_mul_of_pos_left n (Nat.pow_pos (n := cs.length) (by decide : 0 < 10))
  omega

theorem toString_injective : Function.Injective fun n : Nat => toString n := by
  refine Function.LeftInverse.injective (g := fun s => Nat.ofDigitChars 10 s.toList 0) fun n => ?_
  change Nat.ofDigitChars 10 n.repr.toList 0 = n
  rw [Nat.toList_repr, Nat.ofDigitChars_ten_toDigits]

end CampaignSettlement.Text
