import CampaignSettlement.Proofs.Json.Mending

/-!
Numbers of mended bytes. A number lies within ASCII and ends where it is followed by no more of its own bytes, so it is
read, or passed over, as before. Of the numbers that are read only integers are asked for.
-/
namespace CampaignSettlement.Json

open Text.Utf8 (Alike Wide alike_cons alike_dropWhile alike_nil char_wide)

theorem alike_takeDigits {bs bs' : List UInt8} (alike : Alike bs bs') (n k : Nat) :
    (takeDigits n k bs').1 = (takeDigits n k bs).1 ∧ (takeDigits n k bs').2.1 = (takeDigits n k bs).2.1 ∧
      Alike (takeDigits n k bs).2.2 (takeDigits n k bs').2.2 := by
  induction alike generalizing n k with
  | nil => exact ⟨rfl, rfl, .nil⟩
  | @ascii b bs bs' narrow alike ih =>
    rw [takeDigits, takeDigits]
    split
    · exact ih _ _
    · exact ⟨rfl, rfl, .ascii narrow alike⟩
  | @run xs bs bs' c nonempty wide high shorter alike _ =>
    have stop : ∀ zs : List UInt8, zs ≠ [] → Wide zs → ∀ r, takeDigits n k (zs ++ r) = (n, k, zs ++ r) := by
      intro zs some wide r
      obtain ⟨z, zs, rfl⟩ := List.exists_cons_of_ne_nil some
      have outside : isDigit z = false := by
        by_contra digit
        have low := isDigit_ascii z (by simpa using digit)
        have high := wide z (by simp)
        omega
      rw [List.cons_append, takeDigits, outside]
      rfl
    rw [stop xs nonempty wide, stop _ (Text.Utf8.char_nonempty c) (char_wide high)]
    exact ⟨rfl, rfl, .run nonempty wide high shorter alike⟩

theorem finishReal_real {negative : Bool} {n : Nat} {e : Int} {bs rest : List UInt8} {i : Int} :
    finishReal negative n e bs ≠ .ok (.integer i, rest) := by
  rw [finishReal]
  split <;> simp

theorem exponentPart_real {negative : Bool} {n : Nat} {e : Int} {bs rest : List UInt8} {i : Int} :
    exponentPart negative n e bs ≠ .ok (.integer i, rest) := by
  simp only [exponentPart]
  repeat' split
  all_goals first | exact finishReal_real | simp

theorem fractionPart_real {negative : Bool} {n : Nat} {e : Int} {bs rest : List UInt8} {i : Int} :
    fractionPart negative n e bs ≠ .ok (.integer i, rest) := by
  simp only [fractionPart]
  split
  · split <;> simp
  · split
    · split
      · exact exponentPart_real
      · exact finishReal_real
    · exact finishReal_real

theorem numberTail_other {b : UInt8} (point : b ≠ 46) (negative : Bool) (n k : Nat) (r : List UInt8) :
    numberTail negative n k (b :: r) =
      if isExponent b then exponentPart negative n k r
      else if k = 0 then .ok (wholeNumber negative n, b :: r) else finishReal negative n k (b :: r) := by
  rw [numberTail]
  exact point

theorem numberTail_integer {negative : Bool} {n k : Nat} {bs rest : List UInt8} {i : Int}
    (read : numberTail negative n k bs = .ok (.integer i, rest)) :
    k = 0 ∧ wholeNumber negative n = .integer i ∧ rest = bs ∧ ∀ b ∈ bs.head?, b ≠ 46 ∧ isExponent b = false := by
  match bs with
  | [] =>
    rw [numberTail] at read
    split at read
    · rename_i none
      rw [Except.ok.injEq, Prod.mk.injEq] at read
      exact ⟨none, read.1, read.2.symm, by simp⟩
    · exact absurd read finishReal_real
  | b :: r =>
    by_cases point : b = 46
    · subst point
      exact absurd read fractionPart_real
    · rw [numberTail_other point] at read
      split at read
      · exact absurd read exponentPart_real
      · rename_i plain
        split at read
        · rename_i none
          rw [Except.ok.injEq, Prod.mk.injEq] at read
          refine ⟨none, read.1, read.2.symm, fun c head => ?_⟩
          cases head
          exact ⟨point, by simpa using plain⟩
        · exact absurd read finishReal_real

theorem carries_numberTail {negative : Bool} {n k : Nat} {bs bs' rest : List UInt8} {i : Int} (alike : Alike bs bs')
    (read : numberTail negative n k bs = .ok (.integer i, rest)) :
    ∃ rest', numberTail negative n k bs' = .ok (.integer i, rest') ∧ Alike rest rest' := by
  obtain ⟨rfl, whole, rfl, stop⟩ := numberTail_integer read
  have plain := alike_other isExponent_ascii alike fun b head => (stop b head).2
  have pointless := alike_head_ne (by decide : (46 : UInt8).toNat < 128) alike fun b head => (stop b head).1
  refine ⟨bs', ?_, alike⟩
  cases bs' with
  | nil =>
    rw [← whole]
    rfl
  | cons b r =>
    rw [numberTail_other (pointless b rfl), plain b rfl, ← whole]
    rfl

theorem unsignedNumber_zero {negative : Bool} {r : List UInt8} (other : ∀ b ∈ r.head?, isDigit b = false) :
    unsignedNumber negative (48 :: r) = numberTail negative 0 0 r := by
  cases r with
  | nil => rfl
  | cons b r =>
    rw [unsignedNumber.eq_def]
    dsimp only
    rw [if_pos (beq_self_eq_true _), other b rfl]
    rfl

theorem unsignedNumber_digit {negative : Bool} {b : UInt8} (nonzero : b ≠ 48) (digit : isDigit b = true)
    (r : List UInt8) : unsignedNumber negative (b :: r) =
      numberTail negative (takeDigits 0 0 (b :: r)).1 ((takeDigits 0 0 (b :: r)).2.2.takeWhile isDigit).length
        ((takeDigits 0 0 (b :: r)).2.2.dropWhile isDigit) := by
  have parts := congrArg List.length ((takeDigits 0 0 (b :: r)).2.2.takeWhile_append_dropWhile (p := isDigit))
  rw [List.length_append] at parts
  rw [unsignedNumber.eq_def]
  dsimp only
  rw [if_neg (by simpa using nonzero), if_pos digit, ← parts, Nat.add_sub_cancel]

theorem unsignedNumber_ok {negative : Bool} {b : UInt8} {r : List UInt8} {x : Numeral × List UInt8}
    (read : unsignedNumber negative (b :: r) = .ok x) :
    isDigit b = true ∧ (b = 48 → ∀ c ∈ r.head?, isDigit c = false) := by
  by_cases zero : b = 48
  · subst zero
    refine ⟨rfl, fun _ c head => ?_⟩
    obtain ⟨s, rfl⟩ := List.head?_eq_some_iff.mp head
    by_contra digit
    rw [Bool.not_eq_false] at digit
    simp [unsignedNumber, digit] at read
  · refine ⟨?_, fun same => absurd same zero⟩
    by_contra other
    simp [unsignedNumber, zero, other] at read

theorem carries_unsignedNumber {negative : Bool} {bs bs' rest : List UInt8} {i : Int} (alike : Alike bs bs')
    (read : unsignedNumber negative bs = .ok (.integer i, rest)) :
    ∃ rest', unsignedNumber negative bs' = .ok (.integer i, rest') ∧ Alike rest rest' := by
  cases bs with
  | nil => cases read
  | cons b r =>
    obtain ⟨digit, alone⟩ := unsignedNumber_ok read
    obtain ⟨r', rfl, later⟩ := alike_cons (isDigit_ascii b digit) alike
    by_cases zero : b = 48
    · subst zero
      rw [unsignedNumber_zero (alone rfl)] at read
      rw [unsignedNumber_zero (alike_other isDigit_ascii later (alone rfl))]
      exact carries_numberTail later read
    · obtain ⟨number, -, left⟩ := alike_takeDigits alike 0 0
      obtain ⟨after, taken⟩ := alike_dropWhile isDigit_ascii left
      rw [unsignedNumber_digit zero digit] at read ⊢
      rw [number, ← taken]
      exact carries_numberTail after read

theorem number_other {b : UInt8} (sign : b ≠ 45) (r : List UInt8) :
    number (b :: r) = unsignedNumber false (b :: r) := by
  rw [number]
  rintro _ ⟨rfl, -⟩
  exact sign rfl

theorem carries_number {bs bs' rest : List UInt8} {i : Int} (alike : Alike bs bs')
    (read : number bs = .ok (.integer i, rest)) :
    ∃ rest', number bs' = .ok (.integer i, rest') ∧ Alike rest rest' := by
  cases bs with
  | nil => cases read
  | cons b r =>
    by_cases sign : b = 45
    · subst sign
      obtain ⟨r', rfl, later⟩ := alike_cons (by decide) alike
      exact carries_unsignedNumber later read
    · rw [number_other sign] at read
      obtain ⟨r', rfl, -⟩ := alike_cons (isDigit_ascii b (unsignedNumber_ok read).1) alike
      rw [number_other sign]
      exact carries_unsignedNumber alike read

/-! Numbers that are passed over. -/

def skipDigits : List UInt8 → Except Fault (List UInt8)
  | [] => .error (.before .invalidNumber [])
  | b :: r => if isDigit b then .ok (r.dropWhile isDigit) else .error (.before .invalidNumber r)

theorem skipExponent_sign {b : UInt8} (sign : b = 43 ∨ b = 45) (r : List UInt8) :
    skipExponent (b :: r) = skipDigits r := by
  rcases sign with rfl | rfl <;> cases r <;> rfl

theorem skipExponent_other {b : UInt8} (plain : ¬(b = 43 ∨ b = 45)) (r : List UInt8) :
    skipExponent (b :: r) = skipDigits (b :: r) := by
  rw [skipExponent]
  · rfl
  · rintro _ ⟨rfl, -⟩
    exact plain (.inl rfl)
  · rintro _ ⟨rfl, -⟩
    exact plain (.inr rfl)

theorem carries_skipDigits : Carries skipDigits := by
  intro bs bs' rest alike read
  cases bs with
  | nil => cases read
  | cons b r =>
    rw [skipDigits] at read
    split at read
    case isTrue digit =>
      cases read
      obtain ⟨r', rfl, later⟩ := alike_cons (isDigit_ascii b digit) alike
      exact ⟨_, by rw [skipDigits, if_pos digit], (alike_dropWhile isDigit_ascii later).1⟩
    case isFalse => cases read

theorem carries_skipExponent : Carries skipExponent := by
  intro bs bs' rest alike read
  cases bs with
  | nil => cases read
  | cons b r =>
    by_cases sign : b = 43 ∨ b = 45
    · have narrow : b.toNat < 128 := by rcases sign with rfl | rfl <;> decide
      obtain ⟨r', rfl, later⟩ := alike_cons narrow alike
      rw [skipExponent_sign sign] at read ⊢
      exact carries_skipDigits later read
    · rw [skipExponent_other sign] at read
      obtain ⟨rest', read', ends⟩ := carries_skipDigits alike read
      rcases alike_head alike with ⟨r', rfl, _⟩ | ⟨wide, -⟩
      · exact ⟨rest', by rw [skipExponent_other sign, read'], ends⟩
      · have outside : ¬isDigit b = true := fun digit => by
          have low := isDigit_ascii b digit
          omega
        rw [skipDigits, if_neg outside] at read
        cases read

def skipPower : List UInt8 → Except Fault (List UInt8)
  | [] => .ok []
  | b :: r => if isExponent b then skipExponent r else .ok (b :: r)

theorem carries_skipPower : Carries skipPower := by
  intro bs bs' rest alike read
  cases bs with
  | nil =>
    cases read
    rw [alike_nil alike]
    exact ⟨[], rfl, .nil⟩
  | cons b r =>
    rw [skipPower] at read
    split at read
    case isTrue letter =>
      obtain ⟨r', rfl, later⟩ := alike_cons (isExponent_ascii b letter) alike
      rw [skipPower, if_pos letter]
      exact carries_skipExponent later read
    case isFalse plain =>
      cases read
      have other := alike_other isExponent_ascii alike (by simpa using plain)
      refine ⟨bs', ?_, alike⟩
      cases bs' with
      | nil => rfl
      | cons y r' => rw [skipPower, other y rfl, if_neg Bool.false_ne_true]

theorem skipNumberTail_point (r : List UInt8) : skipNumberTail (46 :: r) =
    if r.takeWhile isDigit = [] then .error (.on .invalidNumber r) else skipPower (r.dropWhile isDigit) := by
  have parts := congrArg List.length (r.takeWhile_append_dropWhile (p := isDigit))
  rw [List.length_append] at parts
  have none : r.takeWhile isDigit = [] ↔ (r.dropWhile isDigit).length = r.length := by
    rw [← List.length_eq_zero_iff]
    omega
  simp only [skipNumberTail, none]
  split
  · rfl
  · cases r.dropWhile isDigit <;> rfl

theorem skipNumberTail_other {bs : List UInt8} (point : ∀ b ∈ bs.head?, b ≠ 46) :
    skipNumberTail bs = skipPower bs := by
  cases bs with
  | nil => rfl
  | cons b r =>
    rw [skipNumberTail]
    · rfl
    · exact point b rfl

theorem carries_skipNumberTail : Carries skipNumberTail := by
  intro bs bs' rest alike read
  by_cases point : ∃ r, bs = 46 :: r
  · obtain ⟨r, rfl⟩ := point
    obtain ⟨r', rfl, later⟩ := alike_cons (by decide) alike
    obtain ⟨after, taken⟩ := alike_dropWhile isDigit_ascii later
    rw [skipNumberTail_point] at read ⊢
    rw [← taken]
    split at read
    case isTrue => cases read
    case isFalse some =>
      rw [if_neg some]
      exact carries_skipPower after read
  · have other : ∀ b ∈ bs.head?, b ≠ 46 := by
      rintro b head rfl
      exact point ⟨_, (List.head?_eq_some_iff.mp head).choose_spec⟩
    rw [skipNumberTail_other other] at read
    rw [skipNumberTail_other (alike_head_ne (by decide) alike other)]
    exact carries_skipPower alike read

theorem skipUnsigned_zero {r : List UInt8} (other : ∀ b ∈ r.head?, isDigit b = false) :
    skipUnsigned (48 :: r) = skipNumberTail r := by
  cases r with
  | nil => rfl
  | cons b r =>
    rw [skipUnsigned.eq_def]
    dsimp only
    rw [if_pos (beq_self_eq_true _), other b rfl]
    rfl

theorem skipUnsigned_digit {b : UInt8} (nonzero : b ≠ 48) (digit : isDigit b = true) (r : List UInt8) :
    skipUnsigned (b :: r) = skipNumberTail (r.dropWhile isDigit) := by
  rw [skipUnsigned.eq_def]
  dsimp only
  rw [if_neg (by simpa using nonzero), if_pos digit]

theorem skipUnsigned_ok {b : UInt8} {r rest : List UInt8} (read : skipUnsigned (b :: r) = .ok rest) :
    isDigit b = true ∧ (b = 48 → ∀ c ∈ r.head?, isDigit c = false) := by
  by_cases zero : b = 48
  · subst zero
    refine ⟨rfl, fun _ c head => ?_⟩
    obtain ⟨s, rfl⟩ := List.head?_eq_some_iff.mp head
    by_contra digit
    rw [Bool.not_eq_false] at digit
    simp [skipUnsigned, digit] at read
  · refine ⟨?_, fun same => absurd same zero⟩
    by_contra other
    simp [skipUnsigned, zero, other] at read

theorem carries_skipUnsigned : Carries skipUnsigned := by
  intro bs bs' rest alike read
  cases bs with
  | nil => cases read
  | cons b r =>
    obtain ⟨digit, alone⟩ := skipUnsigned_ok read
    obtain ⟨r', rfl, later⟩ := alike_cons (isDigit_ascii b digit) alike
    by_cases zero : b = 48
    · subst zero
      rw [skipUnsigned_zero (alone rfl)] at read
      rw [skipUnsigned_zero (alike_other isDigit_ascii later (alone rfl))]
      exact carries_skipNumberTail later read
    · rw [skipUnsigned_digit zero digit] at read ⊢
      exact carries_skipNumberTail (alike_dropWhile isDigit_ascii later).1 read

end CampaignSettlement.Json
