import Mathlib.Data.List.TakeWhile
import CampaignSettlement.Proofs.Json.MendedValues

/-!
Tokens keep to the grammar. What a reader of tokens takes is what the grammar tells; and what the grammar tells is
taken, as far as it goes when nothing follows that would lengthen it.
-/
namespace CampaignSettlement.Json.Grammar

open String (utf8EncodeChar)

variable {bs rest : List UInt8}

/-! Blanks. -/

theorem Blanks.refl (bs : List UInt8) : Blanks bs bs := ⟨[], by simp, rfl⟩

theorem Blanks.trans {mid : List UInt8} (first : Blanks bs mid) (second : Blanks mid rest) : Blanks bs rest := by
  obtain ⟨xs, blank, rfl⟩ := first
  obtain ⟨ys, blank', rfl⟩ := second
  exact ⟨xs ++ ys, List.forall_mem_append.mpr ⟨blank, blank'⟩, (List.append_assoc _ _ _).symm⟩

theorem blanks_skipBlanks (bs : List UInt8) : Blanks bs (skipBlanks bs) :=
  ⟨bs.takeWhile isBlank, fun _ member => List.mem_takeWhile_imp member, List.takeWhile_append_dropWhile.symm⟩

theorem Blanks.skip (blanks : Blanks bs rest) : skipBlanks bs = skipBlanks rest := by
  obtain ⟨xs, blank, rfl⟩ := blanks
  exact List.dropWhile_append_of_pos blank

theorem skipBlanks_cons {b : UInt8} (plain : isBlank b = false) (rest : List UInt8) :
    skipBlanks (b :: rest) = b :: rest :=
  List.dropWhile_cons_of_neg (by simp [plain])

theorem skipBlanks_eq_cons {b : UInt8} : skipBlanks bs = b :: rest ↔ Blanks bs (b :: rest) ∧ isBlank b = false := by
  constructor
  · intro next
    refine ⟨next ▸ blanks_skipBlanks bs, ?_⟩
    have stop := List.head?_dropWhile_not isBlank bs
    rw [show bs.dropWhile isBlank = b :: rest from next] at stop
    simpa using stop
  · rintro ⟨blanks, plain⟩
    rw [blanks.skip, skipBlanks_cons plain]

theorem skipBlanks_eq_nil : skipBlanks bs = [] ↔ Blanks bs [] := by
  constructor
  · intro none
    exact none ▸ blanks_skipBlanks bs
  · intro blanks
    exact blanks.skip

/-- What may follow a value: nothing, a blank, a comma or a closing bracket. -/
def Ends (rest : List UInt8) : Prop := ∀ b ∈ rest.head?, isBlank b = true ∨ b = 44 ∨ b = 93 ∨ b = 125

theorem ends_cons {b : UInt8} (ends : isBlank b = true ∨ b = 44 ∨ b = 93 ∨ b = 125) (rest : List UInt8) :
    Ends (b :: rest) := by
  intro c head
  cases head
  exact ends

theorem Blanks.ends {mid : List UInt8} (blanks : Blanks mid rest) (ends : Ends rest) : Ends mid := by
  obtain ⟨xs, blank, rfl⟩ := blanks
  cases xs with
  | nil => exact ends
  | cons x xs => exact ends_cons (.inl (blank x (by simp))) _

/-! Numbers. -/

theorem Ends.plain (ends : Ends rest) : ∀ b ∈ rest.head?, isDigit b = false ∧ b ≠ 46 ∧ isExponent b = false := by
  intro b head
  rcases ends b head with blank | rfl | rfl | rfl
  · simp only [isBlank, Bool.or_eq_true, beq_iff_eq] at blank
    rcases blank with ((rfl | rfl) | rfl) | rfl <;> decide
  all_goals decide

theorem takeWhile_digits (bs : List UInt8) : ∀ b ∈ bs.takeWhile isDigit, isDigit b = true :=
  fun _ member => List.mem_takeWhile_imp member

theorem dropWhile_digits {ds : List UInt8} (digits : ∀ b ∈ ds, isDigit b = true)
    (stop : ∀ b ∈ rest.head?, isDigit b = false) : (ds ++ rest).dropWhile isDigit = rest := by
  rw [List.dropWhile_append_of_pos digits]
  cases rest with
  | nil => rfl
  | cons b r => exact List.dropWhile_cons_of_neg (by simp [stop b rfl])

theorem digits_of_cons {b : UInt8} (digit : isDigit b = true) (r : List UInt8) :
    Digits (b :: r.takeWhile isDigit) :=
  ⟨List.cons_ne_nil _ _, List.forall_mem_cons.mpr ⟨digit, takeWhile_digits r⟩⟩

theorem Digits.cons {ds : List UInt8} (digits : Digits ds) :
    ∃ b tail, ds = b :: tail ∧ isDigit b = true ∧ ∀ c ∈ tail, isDigit c = true := by
  obtain ⟨b, tail, rfl⟩ := List.exists_cons_of_ne_nil digits.nonempty
  obtain ⟨first, later⟩ := List.forall_mem_cons.mp digits.digits
  exact ⟨b, tail, rfl, first, later⟩

theorem digits_of_skip (read : skipDigits bs = .ok rest) : ∃ ds, Digits ds ∧ bs = ds ++ rest := by
  cases bs with
  | nil => cases read
  | cons b r =>
    rw [skipDigits] at read
    split at read
    case isTrue digit =>
      cases read
      exact ⟨_, digits_of_cons digit r, by rw [List.cons_append, List.takeWhile_append_dropWhile]⟩
    case isFalse => cases read

theorem Digits.skip {ds : List UInt8} (digits : Digits ds) (stop : ∀ b ∈ rest.head?, isDigit b = false) :
    skipDigits (ds ++ rest) = .ok rest := by
  obtain ⟨b, tail, rfl, digit, later⟩ := digits.cons
  rw [List.cons_append, skipDigits, if_pos digit, dropWhile_digits later stop]

theorem isBlank_of_digit {b : UInt8} (digit : isDigit b = true) : isBlank b = false := by
  by_contra blank
  simp only [isBlank, Bool.or_eq_true, beq_iff_eq, Bool.not_eq_false] at blank
  rcases blank with ((rfl | rfl) | rfl) | rfl <;> cases digit

theorem isDigit_unsigned {b : UInt8} (digit : isDigit b = true) : ¬(b = 43 ∨ b = 45) := by
  rintro (rfl | rfl) <;> cases digit

theorem skipExponent_digits {ds : List UInt8} (digits : Digits ds) (rest : List UInt8) :
    skipExponent (ds ++ rest) = skipDigits (ds ++ rest) := by
  obtain ⟨b, tail, rfl, digit, -⟩ := digits.cons
  exact skipExponent_other (isDigit_unsigned digit) _

theorem power_of_skip (read : skipPower bs = .ok rest) : Power bs rest := by
  cases bs with
  | nil =>
    cases read
    exact .none []
  | cons e r =>
    rw [skipPower] at read
    split at read
    case isFalse =>
      cases read
      exact .none _
    case isTrue letter =>
      cases r with
      | nil => cases read
      | cons b s =>
        by_cases signed : b = 43 ∨ b = 45
        · rw [skipExponent_sign signed] at read
          obtain ⟨ds, digits, rfl⟩ := digits_of_skip read
          have sign : Sign [b] := .inr (by simpa using signed)
          exact .letter letter sign digits rest
        · rw [skipExponent_other signed] at read
          obtain ⟨ds, digits, same⟩ := digits_of_skip read
          have sign : Sign [] := .inl rfl
          rw [same]
          exact .letter letter sign digits rest

theorem Power.skip (power : Power bs rest) (ends : Ends rest) : skipPower bs = .ok rest := by
  cases power with
  | none =>
    cases bs with
    | nil => rfl
    | cons b r => rw [skipPower, if_neg (by simp [(ends.plain b rfl).2.2])]
  | @letter e sign ds letter signed digits =>
    have read := digits.skip fun b head => (ends.plain b head).1
    rw [skipPower, if_pos letter]
    rcases signed with rfl | rfl | rfl
    · exact (skipExponent_digits digits rest).trans read
    · exact (skipExponent_sign (.inl rfl) _).trans read
    · exact (skipExponent_sign (.inr rfl) _).trans read

theorem Power.plain (power : Power bs rest) (ends : Ends rest) : ∀ b ∈ bs.head?, isDigit b = false ∧ b ≠ 46 := by
  cases power with
  | none => exact fun b head => ⟨(ends.plain b head).1, (ends.plain b head).2.1⟩
  | letter letter =>
    intro b head
    cases head
    simp only [isExponent, Bool.or_eq_true, beq_iff_eq] at letter
    rcases letter with rfl | rfl <;> decide

theorem fraction_of_skip (read : skipNumberTail bs = .ok rest) : ∃ s, Fraction bs s ∧ Power s rest := by
  by_cases point : ∃ r, bs = 46 :: r
  · obtain ⟨r, rfl⟩ := point
    rw [skipNumberTail_point] at read
    split at read
    case isTrue => cases read
    case isFalse some =>
      refine ⟨r.dropWhile isDigit, ?_, power_of_skip read⟩
      have fraction := Fraction.point ⟨some, takeWhile_digits r⟩ (r.dropWhile isDigit)
      rwa [List.takeWhile_append_dropWhile] at fraction
  · rw [skipNumberTail_other] at read
    · exact ⟨bs, .none bs, power_of_skip read⟩
    · rintro b head rfl
      obtain ⟨r, rfl⟩ := List.head?_eq_some_iff.mp head
      exact point ⟨r, rfl⟩

theorem Fraction.skip {s : List UInt8} (fraction : Fraction bs s) (power : Power s rest) (ends : Ends rest) :
    skipNumberTail bs = .ok rest := by
  have stop := power.plain ends
  cases fraction with
  | none => rw [skipNumberTail_other fun b head => (stop b head).2, power.skip ends]
  | @point ds digits =>
    rw [skipNumberTail_point, dropWhile_digits digits.digits fun b head => (stop b head).1, power.skip ends, if_neg]
    obtain ⟨b, tail, rfl, digit, -⟩ := digits.cons
    simp [digit]

theorem whole_of_skip (read : skipUnsigned bs = .ok rest) :
    ∃ ds r, Whole ds ∧ bs = ds ++ r ∧ skipNumberTail r = .ok rest := by
  cases bs with
  | nil => cases read
  | cons b r =>
    obtain ⟨digit, alone⟩ := skipUnsigned_ok read
    by_cases zero : b = 48
    · subst zero
      rw [skipUnsigned_zero (alone rfl)] at read
      exact ⟨[48], r, ⟨⟨by simp, by simpa using digit⟩, by simp⟩, rfl, read⟩
    · rw [skipUnsigned_digit zero digit] at read
      refine ⟨_, _, ⟨digits_of_cons digit r, fun lead => ?_⟩, ?_, read⟩
      · exact absurd (Option.some.inj lead) zero
      · rw [List.cons_append, List.takeWhile_append_dropWhile]

theorem Whole.cases {ds : List UInt8} (whole : Whole ds) : ds = [48] ∨
    ∃ b tail, ds = b :: tail ∧ b ≠ 48 ∧ isDigit b = true ∧ ∀ c ∈ tail, isDigit c = true := by
  obtain ⟨b, tail, rfl, digit, later⟩ := whole.toDigits.cons
  by_cases zero : b = 48
  · subst zero
    exact .inl (whole.lead rfl)
  · exact .inr ⟨b, tail, rfl, zero, digit, later⟩

theorem Whole.skip {ds : List UInt8} (whole : Whole ds) (stop : ∀ b ∈ rest.head?, isDigit b = false) :
    skipUnsigned (ds ++ rest) = skipNumberTail rest := by
  rcases whole.cases with rfl | ⟨b, tail, rfl, nonzero, digit, later⟩
  · exact skipUnsigned_zero stop
  · rw [List.cons_append, skipUnsigned_digit nonzero digit, dropWhile_digits later stop]

theorem Fraction.plain {s : List UInt8} (fraction : Fraction bs s) (power : Power s rest) (ends : Ends rest) :
    ∀ b ∈ bs.head?, isDigit b = false := by
  cases fraction with
  | none => exact fun b head => (power.plain ends b head).1
  | point =>
    intro b head
    cases head
    rfl

theorem skipUnsigned_number {ds r s : List UInt8} (whole : Whole ds) (fraction : Fraction r s) (power : Power s rest)
    (ends : Ends rest) : skipUnsigned (ds ++ r) = .ok rest := by
  rw [whole.skip (fraction.plain power ends), fraction.skip power ends]

/-! Integers. -/

/-- The value of the digits `ds` after others of value `n`. -/
def valueFrom (n : Nat) (ds : List UInt8) : Nat := ds.foldl (fun n b => n * 10 + digit b) n

theorem valueFrom_cons (n : Nat) (b : UInt8) (ds : List UInt8) :
    valueFrom n (b :: ds) = valueFrom (n * 10 + digit b) ds := by
  simp only [valueFrom, List.foldl_cons]

theorem le_valueFrom (n : Nat) (ds : List UInt8) : n ≤ valueFrom n ds := by
  induction ds generalizing n with
  | nil => exact Nat.le_refl n
  | cons b ds ih =>
    have more := ih (n * 10 + digit b)
    rw [valueFrom_cons]
    omega

theorem takeDigits_takes (n k : Nat) (bs : List UInt8) : ∃ ds, (∀ b ∈ ds, isDigit b = true) ∧
    bs = ds ++ (takeDigits n k bs).2.2 ∧ (takeDigits n k bs).1 = valueFrom n ds := by
  induction bs generalizing n k with
  | nil => exact ⟨[], by simp, rfl, rfl⟩
  | cons b r ih =>
    rw [takeDigits]
    split
    case isTrue fits =>
      obtain ⟨ds, digits, split, value⟩ := ih (n * 10 + digit b) (k + 1)
      have digit := (Bool.and_eq_true_iff.mp fits).1
      exact ⟨b :: ds, List.forall_mem_cons.mpr ⟨digit, digits⟩, congrArg (b :: ·) split, value⟩
    case isFalse => exact ⟨[], by simp, rfl, rfl⟩

theorem takeDigits_all {ds : List UInt8} (digits : ∀ b ∈ ds, isDigit b = true)
    (stop : ∀ b ∈ rest.head?, isDigit b = false) {n : Nat} (fits : valueFrom n ds < 2 ^ 64) (k : Nat) :
    (takeDigits n k (ds ++ rest)).1 = valueFrom n ds ∧ (takeDigits n k (ds ++ rest)).2.2 = rest := by
  induction ds generalizing n k with
  | nil =>
    rw [List.nil_append]
    cases rest with
    | nil => exact ⟨rfl, rfl⟩
    | cons b r =>
      rw [takeDigits, stop b rfl]
      exact ⟨rfl, rfl⟩
  | cons b ds ih =>
    obtain ⟨digit, later⟩ := List.forall_mem_cons.mp digits
    rw [valueFrom_cons] at fits
    have enough := le_valueFrom (n * 10 + Json.digit b) ds
    rw [List.cons_append, takeDigits, if_pos, valueFrom_cons]
    · exact ih later fits (k + 1)
    · simp only [digit, Bool.true_and, decide_eq_true_eq]
      exact Nat.lt_of_le_of_lt enough fits

theorem wholeNumber_integer {negative : Bool} {n : Nat} {i : Int} (whole : wholeNumber negative n = .integer i) :
    negative = false ∧ i = n ∨ negative = true ∧ n ≠ 0 ∧ i = -n := by
  rw [wholeNumber] at whole
  split at whole
  case isTrue plain =>
    cases whole
    exact .inl ⟨by simpa using plain, rfl⟩
  case isFalse minus =>
    split at whole
    case isTrue => cases whole
    case isFalse small =>
      cases whole
      exact .inr ⟨by simpa using minus, fun none => small (by simp [none]), rfl⟩

theorem wholeNumber_minus {n : Nat} (nonzero : n ≠ 0) (fits : n ≤ 2 ^ 63) : wholeNumber true n = .integer (-n) := by
  rw [wholeNumber, if_neg (by simp), if_neg]
  simp only [Bool.or_eq_true, decide_eq_true_eq, Nat.pow_eq]
  omega

theorem whole_of_unsigned {negative : Bool} {i : Int} (read : unsignedNumber negative bs = .ok (.integer i, rest)) :
    ∃ ds, Whole ds ∧ bs = ds ++ rest ∧ wholeNumber negative (valueOf ds) = .integer i := by
  cases bs with
  | nil => cases read
  | cons b r =>
    obtain ⟨digit, alone⟩ := unsignedNumber_ok read
    by_cases zero : b = 48
    · subst zero
      rw [unsignedNumber_zero (alone rfl)] at read
      obtain ⟨-, whole, rfl, -⟩ := numberTail_integer read
      exact ⟨[48], ⟨⟨by simp, by simpa using digit⟩, by simp⟩, rfl, whole⟩
    · rw [unsignedNumber_digit zero digit] at read
      obtain ⟨none, whole, rfl, -⟩ := numberTail_integer read
      obtain ⟨ds, digits, split, value⟩ := takeDigits_takes 0 0 (b :: r)
      generalize takeDigits 0 0 (b :: r) = taken at none whole split value
      have left : taken.2.2.dropWhile isDigit = taken.2.2 := by
        have parts := taken.2.2.takeWhile_append_dropWhile (p := isDigit)
        rwa [List.length_eq_zero_iff.mp none, List.nil_append] at parts
      rw [left]
      rw [value] at whole
      cases ds with
      | nil =>
        rw [List.nil_append] at split
        rw [← split, List.takeWhile_cons_of_pos digit] at none
        cases none
      | cons c ds =>
        obtain ⟨rfl, -⟩ := List.cons.inj split
        exact ⟨b :: ds, ⟨⟨by simp, digits⟩, fun lead => absurd (Option.some.inj lead) zero⟩, split, whole⟩

theorem numberTail_ends (negative : Bool) (n : Nat) (ends : Ends rest) :
    numberTail negative n 0 rest = .ok (wholeNumber negative n, rest) := by
  cases rest with
  | nil => rfl
  | cons b r =>
    obtain ⟨-, point, letter⟩ := ends.plain b rfl
    rw [numberTail_other point, letter]
    rfl

theorem Whole.unsigned {ds : List UInt8} (whole : Whole ds) (ends : Ends rest) (fits : valueOf ds < 2 ^ 64)
    (negative : Bool) : unsignedNumber negative (ds ++ rest) = .ok (wholeNumber negative (valueOf ds), rest) := by
  have stop := fun b head => (ends.plain b head).1
  have digits := whole.digits
  obtain ⟨value, left⟩ := takeDigits_all digits stop fits 0
  rcases whole.cases with rfl | ⟨b, tail, rfl, nonzero, digit, -⟩
  · exact (unsignedNumber_zero stop).trans (numberTail_ends negative 0 ends)
  · rw [List.cons_append] at value left ⊢
    rw [unsignedNumber_digit nonzero digit, value, left]
    have none : rest.takeWhile isDigit = [] := by
      cases rest with
      | nil => rfl
      | cons c r => exact List.takeWhile_cons_of_neg (by simp [stop c rfl])
    have all := rest.takeWhile_append_dropWhile (p := isDigit)
    rw [none, List.nil_append] at all
    rw [none, all]
    exact numberTail_ends negative _ ends

theorem integer_of_number {i : Int} (read : number bs = .ok (.integer i, rest)) : Integer bs i rest := by
  cases bs with
  | nil => cases read
  | cons b r =>
    by_cases sign : b = 45
    · subst sign
      have read : unsignedNumber true r = .ok (.integer i, rest) := read
      obtain ⟨ds, whole, rfl, value⟩ := whole_of_unsigned read
      rcases wholeNumber_integer value with ⟨impossible, -⟩ | ⟨-, nonzero, rfl⟩
      · cases impossible
      · exact .minus whole nonzero rest
    · rw [number_other sign] at read
      obtain ⟨ds, whole, split, value⟩ := whole_of_unsigned read
      rcases wholeNumber_integer value with ⟨-, rfl⟩ | ⟨impossible, -⟩
      · exact split ▸ .plain whole rest
      · cases impossible

theorem Integer.read {i : Int} (integer : Integer bs i rest) (ends : Ends rest) (low : -2 ^ 63 ≤ i)
    (high : i < 2 ^ 64) : number bs = .ok (.integer i, rest) := by
  cases integer with
  | @plain ds whole =>
    have read := whole.unsigned ends (by omega) false
    obtain ⟨b, tail, rfl, digit, -⟩ := whole.toDigits.cons
    rw [List.cons_append, number_other fun sign => isDigit_unsigned digit (.inr sign)]
    exact read
  | @minus ds whole nonzero =>
    have read := whole.unsigned ends (by omega) true
    rw [wholeNumber_minus nonzero (by omega)] at read
    exact read

theorem Integer.number {i : Int} (integer : Integer bs i rest) : Number bs rest := by
  cases integer with
  | plain whole => exact .plain whole (.none rest) (.none rest)
  | minus whole => exact .minus whole (.none rest) (.none rest)

/-! Texts. -/

theorem hexUnit_eq_ok {n : Nat} : hexUnit bs = .ok (n, rest) ↔ Hex bs n rest := by
  constructor
  · intro read
    unfold hexUnit at read
    split at read
    · split at read
      · rename_i first second third fourth
        rw [Except.ok.injEq, Prod.mk.injEq] at read
        obtain ⟨rfl, rfl⟩ := read
        exact .four first second third fourth _
      · cases read
    · cases read
  · rintro ⟨first, second, third, fourth⟩
    simp [hexUnit, first, second, third, fourth]

theorem bounds_iff {low high n : Nat} : (decide (low ≤ n) && decide (n ≤ high)) = true ↔ low ≤ n ∧ n ≤ high := by
  simp

theorem low_of_half {high : Nat} {c : Char} (read : lowHalf high bs = .ok (c, rest)) :
    ∃ r low, bs = 92 :: 117 :: r ∧ Hex r low rest ∧ (0xDC00 ≤ low ∧ low ≤ 0xDFFF) ∧
      c = Char.ofNat ((high - 0xD800) * 0x400 + (low - 0xDC00) + 0x10000) := by
  unfold lowHalf at read
  split at read
  · rename_i r
    split at read
    · cases read
    · rename_i low after hex
      split at read
      case isTrue bounds =>
        rw [Except.ok.injEq, Prod.mk.injEq] at read
        exact ⟨r, low, rfl, read.2 ▸ hexUnit_eq_ok.mp hex, bounds_iff.mp bounds, read.1.symm⟩
      case isFalse => cases read
  all_goals cases read

theorem escapeBytes_eq_ok {e : List UInt8} :
    escapeBytes bs = .ok (e, rest) ↔ ∃ c, Escape bs c rest ∧ e = utf8EncodeChar c := by
  constructor
  · intro read
    unfold escapeBytes at read
    split at read
    · cases read
    · rename_i r
      split at read
      · cases read
      · rename_i n after hex
        have hex := hexUnit_eq_ok.mp hex
        split at read
        case isTrue => cases read
        case isFalse notLow =>
          split at read
          case isTrue first =>
            obtain ⟨⟨c, left⟩, half, same⟩ := map_eq_ok.mp read
            cases same
            obtain ⟨s, low, rfl, hex', second, meant⟩ := low_of_half half
            exact ⟨_, .pair hex (bounds_iff.mp first) hex' second, congrArg utf8EncodeChar meant⟩
          case isFalse notHigh =>
            cases read
            rw [bounds_iff] at notLow notHigh
            exact ⟨_, .unit hex (by omega), rfl⟩
    · split at read
      · rename_i b r other c known
        cases read
        refine ⟨_, .letter known rest, ?_⟩
        rw [Text.Utf8.chars_one (letterEscape_narrow known).2, UInt8.ofNat_toNat]
      · cases read
  · rintro ⟨c, escape, rfl⟩
    cases escape with
    | @letter b c known =>
      have other : b ≠ 117 := by
        rintro rfl
        cases known
      rw [escapeBytes, known, Text.Utf8.chars_one (letterEscape_narrow known).2, UInt8.ofNat_toNat]
      exact other
    | unit hex whole =>
      rw [escapeBytes, hexUnit_eq_ok.mpr hex]
      dsimp only
      rw [if_neg (by rw [bounds_iff]; omega), if_neg (by rw [bounds_iff]; omega)]
    | pair hex first hex' second =>
      rw [escapeBytes, hexUnit_eq_ok.mpr hex]
      dsimp only
      rw [if_neg (by rw [bounds_iff]; omega), if_pos (bounds_iff.mpr first), lowHalf, hexUnit_eq_ok.mpr hex']
      dsimp only
      rw [if_pos (bounds_iff.mpr second), Except.map]

theorem meant_iff_spells {t : List UInt8} : Meant bs t rest ↔ Spells bs t rest := by
  constructor
  · intro meant
    induction meant with
    | close rest => exact .close rest
    | escape escape _ ih => exact .escape (escapeBytes_eq_ok.mpr ⟨_, escape, rfl⟩) ih
    | plain plain _ ih => exact .plain plain.quote plain.backslash plain.printable ih
  · intro spells
    induction spells with
    | close rest => exact .close rest
    | escape found _ ih =>
      obtain ⟨c, escape, rfl⟩ := escapeBytes_eq_ok.mp found
      exact .escape escape ih
    | plain notQuote notEscape printable _ ih => exact .plain ⟨notQuote, notEscape, printable⟩ ih

theorem text_iff {s : String} : text bs = .ok (s, rest) ↔ Text bs s rest := text_eq_ok.trans meant_iff_spells.symm

theorem plain_of_hexDigit {b : UInt8} {n : Nat} (digit : hexDigit b = some n) : Plain b := by
  refine ⟨?_, ?_, ?_⟩
  · rintro rfl
    cases digit
  · rintro rfl
    cases digit
  · by_contra low
    simp only [hexDigit, Bool.and_eq_true, decide_eq_true_eq, UInt8.le_iff_toNat_le, UInt8.reduceToNat] at digit
    rw [if_neg (by omega), if_neg (by omega), if_neg (by omega)] at digit
    cases digit

theorem skipText_of_plain {b : UInt8} (plain : Plain b) (r : List UInt8) : skipText (b :: r) = skipText r := by
  rw [skipText_plain plain.quote plain.backslash, if_neg]
  intro low
  exact absurd (UInt8.lt_iff_toNat_lt.mp low) (Nat.not_lt.mpr plain.printable)

theorem Hex.skip {n : Nat} {r : List UInt8} (hex : Hex bs n r) : skipText (92 :: 117 :: bs) = skipText r := by
  have read := hexUnit_eq_ok.mpr hex
  obtain ⟨first, second, third, fourth⟩ := hex
  rw [skipText, read]
  dsimp only
  rw [skipText_of_plain (plain_of_hexDigit first), skipText_of_plain (plain_of_hexDigit second),
    skipText_of_plain (plain_of_hexDigit third), skipText_of_plain (plain_of_hexDigit fourth)]

theorem anyText_of_skip (read : skipText bs = .ok rest) : AnyText bs rest := by
  induction length : bs.length using Nat.strongRecOn generalizing bs with
  | ind n ih =>
    subst length
    cases bs with
    | nil => cases read
    | cons b r =>
      by_cases quote : b = 34
      · subst quote
        cases read
        exact .close _
      by_cases backslash : b = 92
      · subst backslash
        cases r with
        | nil => cases read
        | cons e r =>
          by_cases unit : e = 117
          · subst unit
            cases digits : hexUnit r with
            | error f => simp [skipText, digits] at read
            | ok found =>
              obtain ⟨n, left⟩ := found
              have hex := hexUnit_eq_ok.mp digits
              rw [hex.skip] at read
              have shorter : left.length < (92 :: 117 :: r).length := by
                cases hex
                simp only [List.length_cons]
                omega
              exact .unit hex (ih _ shorter read rfl)
          · rw [skipText_letter unit] at read
            split at read
            case isTrue known => exact .letter known (ih r.length (by simp) read rfl)
            case isFalse => cases read
      · rw [skipText_plain quote backslash] at read
        split at read
        case isTrue => cases read
        case isFalse high =>
          have printable := Nat.not_lt.mp fun low => high (UInt8.lt_iff_toNat_lt.mpr low)
          exact .plain ⟨quote, backslash, printable⟩ (ih r.length (Nat.lt_succ_self _) read rfl)

theorem AnyText.skip (text : AnyText bs rest) : skipText bs = .ok rest := by
  induction text with
  | close rest => rfl
  | @letter e r rest known _ ih =>
    have other : e ≠ 117 := by
      rintro rfl
      cases known
    rw [skipText_letter other, if_pos known, ih]
  | unit hex _ ih => rw [hex.skip, ih]
  | plain plain _ ih => rw [skipText_of_plain plain, ih]

end CampaignSettlement.Json.Grammar
