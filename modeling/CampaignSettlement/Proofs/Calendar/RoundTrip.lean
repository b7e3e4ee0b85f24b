import CampaignSettlement.Calendar.Reading
import CampaignSettlement.Proofs.Calendar.Days
import CampaignSettlement.Proofs.Text.Digits

/-!
The text of an instant is read back. Every number in it has a fixed count of digits, so a reader that takes at most that
many digits stops where the number ends.
-/
namespace CampaignSettlement.Calendar

open Text (digitValue isBlank_digit isDigit isDigit_of le_ofDigitChars toDigits_digits trimLeft)

structure Digits (width n : Nat) (cs : List Char) : Prop where
  length : cs.length = width
  digits : ∀ c ∈ cs, c.isDigit = true
  value : Nat.ofDigitChars 10 cs 0 = n

theorem digits_padded {width n : Nat} (positive : 0 < width) (fits : n < 10 ^ width) :
    Digits width n (padded width n).toList := by
  have short := (Nat.length_toDigits_le_iff (b := 10) (n := n) (by decide) positive).mpr fits
  rw [padded, String.toList_ofList]
  refine ⟨?_, fun c member => ?_, ?_⟩
  · rw [List.length_append, List.length_replicate]
    omega
  · rcases List.mem_append.mp member with zero | digit
    · rw [List.eq_of_mem_replicate zero]
      rfl
    · exact toDigits_digits n c digit
  · rw [Nat.ofDigitChars_append, Nat.ofDigitChars_replicate_zero, Nat.mul_zero, Nat.ofDigitChars_ten_toDigits]

structure Ends (limit : Nat) (cs rest : List Char) : Prop where
  length : cs.length ≤ limit
  stop : cs.length < limit → ∀ c ∈ rest.head?, isDigit c = false

theorem moreDigits_digits {cs : List Char} (digits : ∀ c ∈ cs, c.isDigit = true) {limit : Nat} {rest : List Char}
    (ends : Ends limit cs rest) {n : Nat} (fits : Nat.ofDigitChars 10 cs n ≤ 9223372036854775807) :
    moreDigits limit n (cs ++ rest) = .ok (Nat.ofDigitChars 10 cs n, rest) := by
  induction cs generalizing limit n with
  | nil =>
    match limit, rest with
    | 0, _ => rfl
    | _ + 1, [] => rfl
    | limit + 1, c :: r =>
      rw [List.nil_append, moreDigits, if_neg (by simpa using ends.stop (Nat.zero_lt_succ _) c rfl)]
      rfl
  | cons c cs ih =>
    have length := ends.length
    rw [List.length_cons] at length
    obtain ⟨limit, rfl⟩ := Nat.exists_eq_succ_of_ne_zero (n := limit) (by omega)
    have value : n * 10 + digitValue c = 10 * n + (c.toNat - '0'.toNat) := by rw [digitValue, Nat.mul_comm]
    rw [Nat.ofDigitChars_cons] at fits ⊢
    have least := le_ofDigitChars cs (10 * n + (c.toNat - '0'.toNat))
    rw [List.cons_append, moreDigits, if_pos (isDigit_of (digits c (by simp)))]
    dsimp only
    rw [value, if_neg (by omega)]
    exact ih (fun c member => digits c (by simp [member]))
      ⟨Nat.le_of_succ_le_succ length, fun short => ends.stop (Nat.succ_lt_succ short)⟩ fits

theorem number_digits {width n : Nat} {cs : List Char} (digits : Digits width n cs) (positive : 0 < width)
    {limit : Nat} {rest : List Char} (ends : Ends limit cs rest) (fits : n ≤ 9223372036854775807) :
    number limit (cs ++ rest) = .ok (n, rest) := by
  have read := moreDigits_digits digits.digits ends (n := 0) (by rw [digits.value]; exact fits)
  rw [digits.value] at read
  match cs with
  | [] => exact absurd digits.length (by simp; omega)
  | c :: cs =>
    rw [List.cons_append] at read ⊢
    rw [number, if_pos (isDigit_of (digits.digits c (by simp)))]
    exact read

theorem trimLeft_digits {width n : Nat} {cs : List Char} (digits : Digits width n cs) (positive : 0 < width)
    (rest : List Char) : trimLeft (cs ++ rest) = cs ++ rest := by
  match cs with
  | [] => exact absurd digits.length (by simp; omega)
  | c :: cs =>
    rw [List.cons_append, trimLeft, List.dropWhile_cons, if_neg (by simp [isBlank_digit (digits.digits c (by simp))])]

theorem numberIn_padded {low high n : Nat} (least : low ≤ n) (most : n ≤ high) (fits : n < 100) (rest : List Char) :
    numberIn low high ((padded 2 n).toList ++ rest) = .ok (n, rest) := by
  have digits : Digits 2 n _ := digits_padded (by decide) fits
  rw [numberIn, trimLeft_digits digits (by decide), number_digits digits (by decide)
    ⟨digits.length.le, fun short => absurd digits.length short.ne⟩ (by omega)]
  exact if_pos (by simp [least, most])

theorem yearNumber_text {y : Int} (least : 0 ≤ y) (most : y ≤ 9999) (rest : List Char) :
    yearNumber ((yearText y).toList ++ rest) = .ok (y, rest) := by
  have digits : Digits 4 y.toNat _ := digits_padded (by decide) (by omega)
  have read : number 4 ((padded 4 y.toNat).toList ++ rest) = .ok (y.toNat, rest) :=
    number_digits digits (by decide) ⟨digits.length.le, fun short => absurd digits.length short.ne⟩ (by omega)
  have trimmed := trimLeft_digits digits (by decide) rest
  rw [yearText, if_pos (by simp [least, most]), yearNumber, trimmed]
  split
  · rename_i r sign
    rw [sign] at read
    cases read
  · rename_i r sign
    rw [sign] at read
    cases read
  · rw [read]
    simp only [bind, Except.bind, Int.toNat_of_nonneg least]
    exact if_pos (by simp; omega)

theorem literal_self (c : Char) (rest : List Char) : literal c (c :: rest) = .ok rest := by
  rw [literal, if_pos (beq_self_eq_true c)]

theorem toList_dateText (d : Date) (rest : List Char) : d.text.toList ++ rest =
    (yearText d.year).toList ++
      ('-' :: ((padded 2 d.month).toList ++ ('-' :: ((padded 2 d.dayOfMonth).toList ++ rest)))) := by
  simp [Date.text]

theorem civil_text {d : Date} (least : 0 ≤ d.year) (most : d.year ≤ 9999) (rest : List Char) :
    civil (d.text.toList ++ rest) = .ok ((d.year, d.month, d.dayOfMonth), rest) := by
  have fits := d.civil_fits
  have month := fits.month
  have day := fits.day
  have longest : ∀ leap : Bool, ∀ m < 13, monthLength (if leap then 2000 else 2001) m ≤ 31 := by decide
  have last := Nat.le_trans day.2 (longest _ _ (Nat.lt_succ_of_le month.2))
  have dash : ∀ rest, trimLeft ('-' :: rest) = '-' :: rest := fun _ => rfl
  simp only [toList_dateText, civil, yearNumber_text least most, bind, Except.bind, dash, literal_self,
    numberIn_padded month.1 month.2 (Nat.lt_of_le_of_lt month.2 (by decide)),
    numberIn_padded day.1 last (Nat.lt_of_le_of_lt last (by decide))]

theorem fraction_padded {width n : Nat} (positive : 0 < width) (short : width ≤ 9) (fits : n < 10 ^ width) :
    fraction ((padded width n).toList ++ ['Z']) = .ok (n * 10 ^ (9 - width), ['Z']) := by
  have digits := digits_padded positive fits
  have enough : n ≤ 9223372036854775807 :=
    Nat.le_trans fits.le (Nat.le_trans (Nat.pow_le_pow_right (by decide) short) (by decide))
  rw [fraction, number_digits digits positive ⟨digits.length.trans_le short, fun _ c member => ?_⟩ enough]
  · simp only [bind, Except.bind, List.length_append, Nat.add_sub_cancel, digits.length]
    rfl
  · cases member
    rfl

namespace TimeOfDay

/-- The second as it is shown: one more in a leap second. -/
def shown (t : TimeOfDay) : Nat := t.second % 60 + if nanosPerSecond ≤ t.nano then 1 else 0

theorem of?_self (t : TimeOfDay) {second nano : Nat} (same : second = t.second) (same' : nano = t.nano) :
    of? second nano = some t := by
  subst same same'
  exact dif_pos ⟨t.second_lt, t.nano_lt, t.leap⟩

theorem ofClock?_shown (t : TimeOfDay) :
    ofClock? (t.second / 3600) (t.second / 60 % 60) t.shown (t.nano % nanosPerSecond) = some t := by
  have second := t.second_lt
  have nano := t.nano_lt
  rw [ofClock?, shown, nanosPerSecond]
  split
  case isTrue leap =>
    have last := t.leap (by omega)
    rw [if_pos (by simp; omega), if_pos (by omega)]
    exact t.of?_self (by omega) (by omega)
  case isFalse plain =>
    rw [if_pos (by simp; omega), if_neg (by omega)]
    exact t.of?_self (by omega) (by omega)

def fractionText (nano : Nat) : List Char :=
  if nano = 0 then []
  else if nano % 1000000 = 0 then '.' :: (padded 3 (nano / 1000000)).toList
  else if nano % 1000 = 0 then '.' :: (padded 6 (nano / 1000)).toList
  else '.' :: (padded 9 nano).toList

theorem toList_text (t : TimeOfDay) (rest : List Char) : t.text.toList ++ rest =
    (padded 2 (t.second / 3600)).toList ++ (':' :: ((padded 2 (t.second / 60 % 60)).toList ++
      (':' :: ((padded 2 t.shown).toList ++ (fractionText (t.nano % nanosPerSecond) ++ rest))))) := by
  simp only [text, fractionText, shown, decide_eq_true_eq]
  split
  · simp
  · split
    · simp
    · split <;> simp

theorem fraction_text {nano : Nat} (less : nano < nanosPerSecond) :
    (nano = 0 ∧ fractionText nano = []) ∨
      ∃ cs, fractionText nano = '.' :: cs ∧ fraction (cs ++ ['Z']) = .ok (nano, ['Z']) := by
  rw [nanosPerSecond] at less
  have exact_of : ∀ {width n : Nat}, 0 < width → width ≤ 9 → n < 10 ^ width → n * 10 ^ (9 - width) = nano →
      fraction ((padded width n).toList ++ ['Z']) = .ok (nano, ['Z']) := fun positive short fits value => by
    rw [fraction_padded positive short fits, value]
  rw [fractionText]
  split
  case isTrue zero => exact .inl ⟨zero, rfl⟩
  case isFalse =>
    refine .inr ?_
    split
    case isTrue millis => exact ⟨_, rfl, exact_of (by decide) (by decide) (by omega) (by omega)⟩
    case isFalse =>
      split
      case isTrue micros => exact ⟨_, rfl, exact_of (by decide) (by decide) (by omega) (by omega)⟩
      case isFalse => exact ⟨_, rfl, exact_of (by decide) (by decide) (by omega) (by omega)⟩

end TimeOfDay

theorem clock_text (t : TimeOfDay) : clock (t.text.toList ++ ['Z']) = .ok (t, ['Z']) := by
  have second := t.second_lt
  have shown : t.shown ≤ 60 := by
    rw [TimeOfDay.shown]
    split <;> omega
  have colon : ∀ rest, trimLeft (':' :: rest) = ':' :: rest := fun _ => rfl
  have whole := t.ofClock?_shown
  simp only [TimeOfDay.toList_text, clock, bind, Except.bind, colon, literal_self,
    numberIn_padded (Nat.zero_le _) (by omega : t.second / 3600 ≤ 23) (by omega),
    numberIn_padded (Nat.zero_le _) (by omega : t.second / 60 % 60 ≤ 59) (by omega),
    numberIn_padded (Nat.zero_le _) shown (by omega)]
  rcases TimeOfDay.fraction_text (Nat.mod_lt t.nano (by decide : 0 < nanosPerSecond)) with
    ⟨zero, none⟩ | ⟨cs, some, read⟩
  · rw [zero] at whole
    simp only [none, List.nil_append, whole]
    rfl
  · simp only [some, List.cons_append, read, whole]

namespace Instant

theorem shift?_zero (t : Instant) : shift? t.date t.time 0 = some t := by
  have second := t.time.second_lt
  have day : t.date.day + ((t.time.second : Int) - 0) / 86400 = t.date.day := by omega
  have same : (((t.time.second : Int) - 0) % 86400).toNat = t.time.second := by omega
  rw [shift?, day, same, Date.ofDay?, dif_pos t.date.inRange, t.time.of?_self rfl rfl]

/-- An instant of the years 0 to 9999 is read back from its text. -/
theorem read_text {t : Instant} (least : 0 ≤ t.date.year) (most : t.date.year ≤ 9999) : read t.text = .ok t := by
  have chars : t.text.toList = t.date.text.toList ++ ('T' :: (t.time.text.toList ++ ['Z'])) := by
    simp [text]
  have parted : ∀ rest, separator ('T' :: rest) = .ok rest := fun _ => rfl
  have zulu : zone (trimLeft ['Z']) = .ok (0, []) := rfl
  have date : civilDate (t.date.year, t.date.month, t.date.dayOfMonth) = .ok t.date := by
    rw [civilDate, Date.ofCivil?_civil]
  simp only [read, chars, civil_text least most, parted, clock_text, zulu, date, bind, Except.bind]
  simp [trimLeft, t.shift?_zero]

end Instant

end CampaignSettlement.Calendar
