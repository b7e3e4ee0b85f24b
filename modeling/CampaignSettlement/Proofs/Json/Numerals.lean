import CampaignSettlement.Proofs.Json.MendedRecords
import CampaignSettlement.Proofs.Json.Tokens
import CampaignSettlement.Proofs.Text.Digits

/-!
Integers as they are written are read back exactly, whatever may stand after a value. The digits of a number are its
digits in base ten, the first of them not zero unless the number is.
-/
namespace CampaignSettlement.Json

open Text (digit_bounds toDigits_digits)
open Text.Utf8 (char_ascii toNat_of)
open Grammar

/-- What may stand after a value: nothing, a comma or a closing bracket. -/
def Stops : List UInt8 → Prop
  | [] => True
  | b :: _ => b = 44 ∨ b = 93 ∨ b = 125

theorem Stops.ends {rest : List UInt8} (stops : Stops rest) : Ends rest := by
  cases rest with
  | nil => intro b none; cases none
  | cons b r => exact ends_cons (.inr stops) r

theorem bytes_digit {c : Char} (digit : c.isDigit = true) (cs : List Char) :
    ∃ b, bytes (c :: cs) = b :: bytes cs ∧ b.toNat = c.toNat ∧ isDigit b = true := by
  have bounds := digit_bounds digit
  have number := toNat_of (n := c.toNat) (by omega)
  refine ⟨UInt8.ofNat c.toNat, ?_, number, ?_⟩
  · rw [bytes_cons, char_ascii (by omega)]
    rfl
  · simp only [isDigit, Bool.and_eq_true, decide_eq_true_eq, UInt8.le_iff_toNat_le, number]
    exact bounds

theorem isDigit_bytes {cs : List Char} (digits : ∀ c ∈ cs, c.isDigit = true) : ∀ b ∈ bytes cs, isDigit b = true := by
  induction cs with
  | nil => simp [bytes_nil]
  | cons c cs ih =>
    obtain ⟨first, later⟩ := List.forall_mem_cons.mp digits
    obtain ⟨b, split, -, digit⟩ := bytes_digit first cs
    rw [split]
    exact List.forall_mem_cons.mpr ⟨digit, ih later⟩

theorem valueFrom_bytes {cs : List Char} (digits : ∀ c ∈ cs, c.isDigit = true) (n : Nat) :
    valueFrom n (bytes cs) = Nat.ofDigitChars 10 cs n := by
  induction cs generalizing n with
  | nil => rfl
  | cons c cs ih =>
    obtain ⟨first, later⟩ := List.forall_mem_cons.mp digits
    obtain ⟨b, split, number, -⟩ := bytes_digit first cs
    have value : n * 10 + Json.digit b = 10 * n + (c.toNat - '0'.toNat) := by
      rw [Json.digit, number, Nat.mul_comm]
      rfl
    rw [split, valueFrom_cons, Nat.ofDigitChars_cons, value, ih later]

theorem toDigits_head {n : Nat} (positive : 0 < n) : ∃ c cs, Nat.toDigits 10 n = c :: cs ∧ c ≠ '0' := by
  induction n using Nat.strongRecOn with
  | ind n ih =>
    rcases Nat.lt_or_ge n 10 with small | large
    · refine ⟨Nat.digitChar n, [], Nat.toDigits_of_lt_base small, ?_⟩
      rw [ne_eq, Nat.digitChar_eq_zero]
      omega
    · obtain ⟨c, cs, split, nonzero⟩ := ih (n / 10) (by omega) (by omega)
      exact ⟨c, cs ++ [Nat.digitChar (n % 10)],
        by rw [Nat.toDigits_of_base_le (by decide) large, split, List.cons_append], nonzero⟩

theorem bytes_toDigits (n : Nat) : ∃ b r, bytes (Nat.toDigits 10 n) = b :: r ∧ isDigit b = true := by
  cases split : Nat.toDigits 10 n with
  | nil => exact absurd split Nat.toDigits_ne_nil
  | cons c cs =>
    obtain ⟨b, cut, -, digit⟩ := bytes_digit (toDigits_digits n c (by simp [split])) cs
    exact ⟨b, bytes cs, cut, digit⟩

theorem whole_toDigits (n : Nat) : Whole (bytes (Nat.toDigits 10 n)) := by
  have digits := toDigits_digits n
  obtain ⟨b, r, cut, -⟩ := bytes_toDigits n
  refine ⟨⟨by simp [cut], isDigit_bytes digits⟩, ?_⟩
  intro lead
  rcases Nat.eq_zero_or_pos n with rfl | positive
  · rfl
  · obtain ⟨c, cs, split, nonzero⟩ := toDigits_head positive
    obtain ⟨d, cut', number, -⟩ := bytes_digit (digits c (by simp [split])) cs
    rw [split, cut'] at lead
    obtain rfl := Option.some.inj lead
    exact absurd (Char.toNat_inj.mp number.symm) nonzero

theorem valueOf_toDigits (n : Nat) : valueOf (bytes (Nat.toDigits 10 n)) = n :=
  (valueFrom_bytes (toDigits_digits n) 0).trans Nat.ofDigitChars_ten_toDigits

theorem toList_toString_nat (n : Nat) : (toString (Int.ofNat n)).toList = Nat.toDigits 10 n := by
  rw [Int.toString_eq_repr]
  exact Nat.toList_repr

theorem toList_toString_neg (n : Nat) : (toString (Int.negSucc n)).toList = '-' :: Nat.toDigits 10 (n + 1) := by
  rw [Int.toString_eq_repr, Int.repr]
  rw [String.toList_append, Nat.toList_repr]
  rfl

theorem integer_toString (i : Int) (rest : List UInt8) : Integer (bytes (toString i).toList ++ rest) i rest := by
  cases i with
  | ofNat n =>
    have literal := Integer.plain (whole_toDigits n) rest
    rw [valueOf_toDigits] at literal
    rw [toList_toString_nat]
    exact literal
  | negSucc n =>
    have value := valueOf_toDigits (n + 1)
    have literal := Integer.minus (whole_toDigits (n + 1)) (by rw [value]; exact Nat.succ_ne_zero n) rest
    rw [value] at literal
    rw [toList_toString_neg]
    exact literal

namespace Reader

section
variable {r : Number.Range} {name : String} {bs rest : List UInt8} {i : Int}

theorem literal_of_integer (read : integer r name bs = .ok (i, rest)) :
    ∃ s, Blanks bs s ∧ Integer s i rest ∧ r.holds i = true := by
  obtain ⟨b, s, next, -, read, holds⟩ := integer_eq_ok.mp read
  exact ⟨b :: s, (skipBlanks_eq_cons.mp next).1, integer_of_number read, holds⟩

theorem integer_reads {s : List UInt8} (blanks : Blanks bs s) (literal : Integer s i rest) (ends : Ends rest)
    (holds : r.holds i = true) (low : -2 ^ 63 ≤ i) (high : i < 2 ^ 64) : integer r name bs = .ok (i, rest) := by
  have read := literal.read ends low high
  refine integer_eq_ok.mpr ?_
  cases literal with
  | plain whole =>
    obtain ⟨b, tail, rfl, digit, -⟩ := whole.toDigits.cons
    exact ⟨b, _, skipBlanks_eq_cons.mpr ⟨blanks, isBlank_of_digit digit⟩, by simp [digit], read, holds⟩
  | minus => exact ⟨45, _, skipBlanks_eq_cons.mpr ⟨blanks, rfl⟩, rfl, read, holds⟩

theorem int64_reads {s : List UInt8} (blanks : Blanks bs s) (literal : Integer s i rest) (ends : Ends rest)
    (holds : Number.int64.holds i = true) : int64 bs = .ok (i, rest) := by
  obtain ⟨low, high⟩ := Bool.and_eq_true_iff.mp holds
  have least : -2 ^ 63 ≤ i := of_decide_eq_true low
  have greatest : i ≤ 2 ^ 63 - 1 := of_decide_eq_true high
  exact integer_reads blanks literal ends holds least (by omega)

end

theorem integer_written {r : Number.Range} (name : String) {i : Int} (holds : r.holds i = true)
    (low : -2 ^ 63 ≤ i) (high : i < 2 ^ 64) {rest : List UInt8} (stops : Stops rest) :
    integer r name (bytes (toString i).toList ++ rest) = .ok (i, rest) :=
  integer_reads (.refl _) (integer_toString i rest) stops.ends holds low high

theorem int64_written {i : Int} (low : -2 ^ 63 ≤ i) (high : i < 2 ^ 63) {rest : List UInt8} (stops : Stops rest) :
    int64 (bytes (toString i).toList ++ rest) = .ok (i, rest) :=
  int64_reads (.refl _) (integer_toString i rest) stops.ends
    (Bool.and_eq_true_iff.mpr ⟨decide_eq_true low, decide_eq_true (Int.le_of_lt_add_one high)⟩)

theorem count_written {n : Nat} (fits : n < 2 ^ 64) {rest : List UInt8} (stops : Stops rest) :
    count (bytes (toString (n : Int)).toList ++ rest) = .ok (n, rest) := by
  have read := integer_written (r := Number.nat64) "usize" (i := n)
    (by simp [Number.Range.holds, Number.nat64]; omega) (by omega) (by omega) stops
  rw [count, read]
  rfl

end Reader

end CampaignSettlement.Json
