import CampaignSettlement.Json.Skip
import CampaignSettlement.Proofs.Json.Texts
import CampaignSettlement.Proofs.Text.Mending

/-!
Words and texts of mended bytes. All that gives JSON its structure is ASCII, so each token that is read or passed over
ends at the same place in mended bytes, and gives the same; only what texts say outside ASCII may change.
-/
namespace CampaignSettlement.Json

open Text.Utf8 (Alike Narrow Wide alike_append alike_cons alike_dropWhile alike_encode alike_narrow alike_nil char_wide
  encode spelled)
open String (utf8EncodeChar)

def CarriesTo (f g : List UInt8 → Except Fault (List UInt8)) : Prop :=
  ∀ ⦃bs bs' rest⦄, Alike bs bs' → f bs = .ok rest → ∃ rest', g bs' = .ok rest' ∧ Alike rest rest'

abbrev Carries (f : List UInt8 → Except Fault (List UInt8)) : Prop := CarriesTo f f

theorem isBlank_ascii (b : UInt8) (blank : isBlank b = true) : b.toNat < 128 := by
  simp only [isBlank, Bool.or_eq_true, beq_iff_eq] at blank
  rcases blank with ((rfl | rfl) | rfl) | rfl <;> decide

theorem isDigit_ascii (b : UInt8) (digit : isDigit b = true) : b.toNat < 128 := by
  simp only [isDigit, Bool.and_eq_true, decide_eq_true_eq, UInt8.le_iff_toNat_le, UInt8.reduceToNat] at digit
  omega

theorem isExponent_ascii (b : UInt8) (letter : isExponent b = true) : b.toNat < 128 := by
  simp only [isExponent, Bool.or_eq_true, beq_iff_eq] at letter
  rcases letter with rfl | rfl <;> decide

theorem alike_skipBlanks {bs bs' : List UInt8} (alike : Alike bs bs') : Alike (skipBlanks bs) (skipBlanks bs') :=
  (alike_dropWhile isBlank_ascii alike).1

theorem alike_head {b : UInt8} {bs bs' : List UInt8} (alike : Alike (b :: bs) bs') :
    (∃ r, bs' = b :: r ∧ Alike bs r) ∨ 128 ≤ b.toNat ∧ ∃ y r, bs' = y :: r ∧ 128 ≤ y.toNat := by
  rcases Nat.lt_or_ge b.toNat 128 with narrow | wide
  · exact .inl (alike_cons narrow alike)
  · generalize split : b :: bs = cs at alike
    cases alike with
    | nil => cases split
    | ascii narrow _ =>
      cases split
      omega
    | @run _ _ bs' c _ _ high _ _ =>
      obtain ⟨y, ys, cut⟩ := spelled c
      exact .inr ⟨wide, y, ys ++ bs', by rw [cut, List.cons_append], char_wide high y (by simp [cut])⟩

theorem alike_other {p : UInt8 → Bool} (ascii : ∀ b, p b = true → b.toNat < 128) {bs bs' : List UInt8}
    (alike : Alike bs bs') (other : ∀ b ∈ bs.head?, p b = false) : ∀ b ∈ bs'.head?, p b = false := by
  cases bs with
  | nil =>
    rw [alike_nil alike]
    simp
  | cons b r =>
    rcases alike_head alike with ⟨r', rfl, _⟩ | ⟨-, y, r', rfl, wide⟩
    · simpa using other
    · intro c head
      cases head
      by_contra holds
      have low := ascii y (by simpa using holds)
      omega

theorem alike_head_ne {a : UInt8} (narrow : a.toNat < 128) {bs bs' : List UInt8} (alike : Alike bs bs')
    (other : ∀ b ∈ bs.head?, b ≠ a) : ∀ b ∈ bs'.head?, b ≠ a := by
  intro b head
  have kind := alike_other (p := (· == a)) (fun c same => eq_of_beq same ▸ narrow) alike
    (fun c first => by simpa using other c first) b head
  simpa using kind

theorem carries_word {ls : List UInt8} (narrow : Narrow ls) : Carries (word ls) := by
  intro bs bs' rest alike read
  induction ls generalizing bs bs' with
  | nil =>
    cases read
    exact ⟨bs', rfl, alike⟩
  | cons l ls ih =>
    cases bs with
    | nil => cases read
    | cons b bs =>
      rw [word] at read
      split at read
      case isTrue same =>
        obtain rfl := eq_of_beq same
        obtain ⟨r, rfl, later⟩ := alike_cons (narrow l (by simp)) alike
        obtain ⟨rest', read', last⟩ := ih (fun c member => narrow c (by simp [member])) later read
        exact ⟨rest', by rw [word, if_pos (beq_self_eq_true l)]; exact read', last⟩
      case isFalse => cases read

theorem alike_char (c : Char) {bs bs' : List UInt8} (alike : Alike bs bs') :
    Alike (utf8EncodeChar c ++ bs) (utf8EncodeChar c ++ bs') := by
  rcases Nat.lt_or_ge c.toNat 128 with narrow | wide
  · have number := Text.Utf8.toNat_of (n := c.toNat) (by omega)
    rw [Text.Utf8.char_ascii narrow]
    exact .ascii (by omega) alike
  · exact .run (Text.Utf8.char_nonempty c) (char_wide wide) wide le_rfl alike

theorem spells_of_wide {xs bs t rest : List UInt8} (wide : Wide xs) (spells : Spells (xs ++ bs) t rest) :
    ∃ t', t = xs ++ t' ∧ Spells bs t' rest := by
  induction xs generalizing t with
  | nil => exact ⟨t, rfl, spells⟩
  | cons x xs ih =>
    have high := wide x (by simp)
    generalize split : x :: xs ++ bs = cs at spells
    cases spells with
    | close =>
      cases split
      simp at high
    | escape =>
      cases split
      simp at high
    | plain _ _ _ later =>
      cases split
      obtain ⟨t', rfl, last⟩ := ih (fun b member => wide b (by simp [member])) later
      exact ⟨t', rfl, last⟩

theorem alike_spells {bs bs' t rest : List UInt8} (alike : Alike bs bs') (spells : Spells bs t rest) :
    ∃ t' rest', Spells bs' t' rest' ∧ Alike t t' ∧ Alike rest rest' := by
  -- by the length, since an escape and a run take several bytes at once
  induction length : bs.length using Nat.strongRecOn generalizing bs bs' t with
  | ind n ih =>
    subst length
    cases alike with
    | nil => cases spells
    | @ascii b bs bs' narrow alike =>
      cases spells with
      | close => exact ⟨[], bs', .close bs', .nil, alike⟩
      | @escape _ e r t _ found spells =>
        obtain ⟨p, rfl, -, ascii, ⟨c, rfl⟩, reread⟩ := escape_local found
        obtain ⟨r', rfl, later⟩ := alike_append ascii alike
        obtain ⟨t', rest', spells', same, ends⟩ := ih r.length (by simp) later spells rfl
        exact ⟨_, rest', .escape (reread r') spells', alike_char c same, ends⟩
      | @plain _ _ t _ notQuote notEscape high spells =>
        obtain ⟨t', rest', spells', same, ends⟩ := ih bs.length (Nat.lt_succ_self _) alike spells rfl
        exact ⟨_, rest', .plain notQuote notEscape high spells', .ascii narrow same, ends⟩
    | @run xs bs bs' c nonempty wide high shorter alike =>
      obtain ⟨t, rfl, left⟩ := spells_of_wide wide spells
      have less : bs.length < (xs ++ bs).length := by
        rw [List.length_append]
        have := List.length_pos_of_ne_nil nonempty
        omega
      obtain ⟨t', rest', spells', same, ends⟩ := ih bs.length less alike left rfl
      exact ⟨_, rest', spells_wide (char_wide high) spells', .run nonempty wide high shorter same, ends⟩

/-- A text that is read off mended bytes is the same, or neither of the two lies within ASCII. -/
theorem carries_text {bs bs' rest : List UInt8} {s : String} (alike : Alike bs bs') (read : text bs = .ok (s, rest)) :
    ∃ s' rest', text bs' = .ok (s', rest') ∧ Alike rest rest' ∧
      ∀ name : String, Narrow (encode name) → (s' = name ↔ s = name) := by
  obtain ⟨t', rest', spells, same, ends⟩ := alike_spells alike (text_eq_ok.mp read)
  obtain ⟨s', rfl⟩ := alike_encode same
  refine ⟨s', rest', text_eq_ok.mpr spells, ends, fun name ascii => ?_⟩
  have injective : ∀ {s s' : String}, encode s = encode s' → s = s' := fun eq =>
    Option.some.inj ((Text.Utf8.decode?_encode _).symm.trans (eq ▸ Text.Utf8.decode?_encode _))
  constructor
  · rintro rfl
    exact injective (alike_narrow same (.inr ascii)).symm
  · rintro rfl
    exact injective (alike_narrow same (.inl ascii))

theorem skipText_plain {b : UInt8} (notQuote : b ≠ 34) (notEscape : b ≠ 92) (r : List UInt8) :
    skipText (b :: r) = if b < 32 then .error (.before .controlCharacter (b :: r)) else skipText r := by
  rw [skipText]
  all_goals intros; contradiction

theorem skipText_letter {e : UInt8} (other : e ≠ 117) (r : List UInt8) :
    skipText (92 :: e :: r) =
      if (letterEscape e).isSome then skipText r else .error (.before .invalidEscape r) := by
  rw [skipText]
  exact other

theorem skipText_wide {xs : List UInt8} (wide : Wide xs) (r : List UInt8) : skipText (xs ++ r) = skipText r := by
  induction xs with
  | nil => rfl
  | cons x xs ih =>
    have high := wide x (by simp)
    rw [List.cons_append, skipText_plain, if_neg, ih fun b member => wide b (by simp [member])]
    · intro low
      have small := UInt8.lt_iff_toNat_lt.mp low
      simp at small
      omega
    · rintro rfl
      simp at high
    · rintro rfl
      simp at high

theorem carries_skipText : Carries skipText := by
  intro bs bs' rest alike read
  induction length : bs.length using Nat.strongRecOn generalizing bs bs' with
  | ind n ih =>
    subst length
    cases alike with
    | nil => cases read
    | @ascii b bs bs' narrow alike =>
      by_cases quote : b = 34
      · subst quote
        cases read
        exact ⟨bs', rfl, alike⟩
      by_cases backslash : b = 92
      · subst backslash
        cases bs with
        | nil => cases read
        | cons e r =>
          by_cases unit : e = 117
          · subst unit
            obtain ⟨r', rfl, later⟩ := alike_cons (by decide) alike
            cases digits : hexUnit r with
            | error f => simp [skipText, digits] at read
            | ok found =>
              obtain ⟨n, after⟩ := found
              obtain ⟨p, rfl, -, ascii, reread⟩ := hexUnit_local digits
              obtain ⟨after', rfl, -⟩ := alike_append ascii later
              simp only [skipText, reread] at read ⊢
              exact ih (p ++ after).length (by simp) later read rfl
          · rw [skipText_letter unit] at read
            split at read
            case isTrue letter =>
              obtain ⟨d, known⟩ := Option.isSome_iff_exists.mp letter
              obtain ⟨r', rfl, later⟩ := alike_cons (letterEscape_narrow known).1 alike
              rw [skipText_letter unit, if_pos letter]
              exact ih r.length (by simp) later read rfl
            case isFalse => cases read
      · rw [skipText_plain quote backslash] at read ⊢
        split at read
        case isTrue => cases read
        case isFalse printable =>
          rw [if_neg printable]
          exact ih bs.length (Nat.lt_succ_self _) alike read rfl
    | @run xs bs bs' c nonempty wide high shorter alike =>
      have less : bs.length < (xs ++ bs).length := by
        rw [List.length_append]
        have := List.length_pos_of_ne_nil nonempty
        omega
      rw [skipText_wide wide] at read
      rw [skipText_wide (char_wide high)]
      exact ih bs.length less alike read rfl

end CampaignSettlement.Json
