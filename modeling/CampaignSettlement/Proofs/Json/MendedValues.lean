import CampaignSettlement.Json.Reader
import CampaignSettlement.Proofs.Json.Grammar
import CampaignSettlement.Proofs.Json.MendedNumbers

/-!
Values of mended bytes. A value that is passed over ends at the same place in mended bytes. Mended bytes are not fewer,
so the fuel of a reader is enough for them.
-/
namespace CampaignSettlement.Json

open Grammar (closing)
open Text.Utf8 (Alike Narrow alike_cons alike_length)

theorem alike_next {b : UInt8} {bs bs' r : List UInt8} (alike : Alike bs bs') (next : skipBlanks bs = b :: r)
    (narrow : b.toNat < 128) : ∃ r', skipBlanks bs' = b :: r' ∧ Alike r r' := by
  have after := alike_skipBlanks alike
  rw [next] at after
  exact alike_cons narrow after

theorem map_eq_ok {ε α β : Type} {f : α → β} {x : Except ε α} {b : β} :
    x.map f = .ok b ↔ ∃ a, x = .ok a ∧ f a = b := by
  cases x <;> simp [Except.map]

theorem skipToken_ascii {b : UInt8} {r : List UInt8} {x : Option Frame × List UInt8}
    (read : skipToken b r = .ok x) : b.toNat < 128 := by
  by_contra wide
  have other : ∀ k : UInt8, k.toNat < 128 → ¬(b == k) = true := fun k low same => wide (eq_of_beq same ▸ low)
  have noDigit : ¬isDigit b = true := fun digit => wide (isDigit_ascii b digit)
  simp only [skipToken] at read
  rw [if_neg (other 110 (by decide)), if_neg (other 116 (by decide)), if_neg (other 102 (by decide)),
    if_neg (other 45 (by decide)), if_neg noDigit, if_neg (other 34 (by decide)), if_neg (other 91 (by decide)),
    if_neg (other 123 (by decide))] at read
  cases read

theorem carries_skipToken {b : UInt8} {frame : Option Frame} {r r' rest : List UInt8} (alike : Alike r r')
    (read : skipToken b r = .ok (frame, rest)) :
    ∃ rest', skipToken b r' = .ok (frame, rest') ∧ Alike rest rest' := by
  have plain : ∀ {f : List UInt8 → Except Fault (List UInt8)} {s s' : List UInt8}, Carries f → Alike s s' →
      (f s).map ((none : Option Frame), ·) = .ok (frame, rest) →
      ∃ rest', (f s').map ((none : Option Frame), ·) = .ok (frame, rest') ∧ Alike rest rest' := by
    intro f s s' carries alike read
    obtain ⟨a, found, eq⟩ := map_eq_ok.mp read
    cases eq
    obtain ⟨rest', found', ends⟩ := carries alike found
    exact ⟨rest', map_eq_ok.mpr ⟨rest', found', rfl⟩, ends⟩
  have narrow := skipToken_ascii read
  simp only [skipToken] at read ⊢
  by_cases null : (b == 110) = true
  · rw [if_pos null] at read ⊢
    exact plain (carries_word (by simp [Narrow])) alike read
  rw [if_neg null] at read ⊢
  by_cases yes : (b == 116) = true
  · rw [if_pos yes] at read ⊢
    exact plain (carries_word (by simp [Narrow])) alike read
  rw [if_neg yes] at read ⊢
  by_cases no : (b == 102) = true
  · rw [if_pos no] at read ⊢
    exact plain (carries_word (by simp [Narrow])) alike read
  rw [if_neg no] at read ⊢
  by_cases sign : (b == 45) = true
  · rw [if_pos sign] at read ⊢
    exact plain carries_skipUnsigned alike read
  rw [if_neg sign] at read ⊢
  by_cases digit : isDigit b = true
  · rw [if_pos digit] at read ⊢
    exact plain carries_skipUnsigned (.ascii narrow alike) read
  rw [if_neg digit] at read ⊢
  by_cases quote : (b == 34) = true
  · rw [if_pos quote] at read ⊢
    exact plain carries_skipText alike read
  rw [if_neg quote] at read ⊢
  by_cases list : (b == 91) = true
  · rw [if_pos list] at read ⊢
    cases read
    exact ⟨r', rfl, alike⟩
  rw [if_neg list] at read ⊢
  by_cases object : (b == 123) = true
  · rw [if_pos object] at read ⊢
    cases read
    exact ⟨r', rfl, alike⟩
  rw [if_neg object] at read
  cases read

theorem colon_eq_ok {bs rest : List UInt8} : Reader.colon bs = .ok rest ↔ skipBlanks bs = 58 :: rest := by
  rw [Reader.colon]
  split
  · rename_i none
    simp [none]
  · rename_i b r next
    rw [next, List.cons.injEq]
    split
    case isTrue colon => simp [eq_of_beq colon]
    case isFalse other => simp_all

theorem carries_colon : Carries Reader.colon := by
  intro bs bs' rest alike read
  obtain ⟨rest', next, ends⟩ := alike_next alike (colon_eq_ok.mp read) (by decide)
  exact ⟨rest', colon_eq_ok.mpr next, ends⟩

theorem skipKey_eq_ok {bs rest : List UInt8} : skipKey bs = .ok rest ↔
    ∃ r after, skipBlanks bs = 34 :: r ∧ skipText r = .ok after ∧ Reader.colon after = .ok rest := by
  rw [skipKey]
  split
  · rename_i none
    simp [none]
  · rename_i b r next
    rw [next]
    split
    case isTrue other => simp_all
    case isFalse quote =>
      obtain rfl : b = 34 := by simpa using quote
      cases key : skipText r with
      | error f => simp [key]
      | ok after =>
        constructor
        · exact fun colon => ⟨r, after, rfl, key, colon⟩
        · rintro ⟨r', after', split, key', colon⟩
          obtain ⟨-, rfl⟩ := List.cons.inj split
          obtain rfl := Except.ok.inj (key.symm.trans key')
          exact colon

theorem carries_skipKey : Carries skipKey := by
  intro bs bs' rest alike read
  obtain ⟨r, after, next, key, colon⟩ := skipKey_eq_ok.mp read
  obtain ⟨r', next', later⟩ := alike_next alike next (by decide)
  obtain ⟨after', key', last⟩ := carries_skipText later key
  obtain ⟨rest', colon', ends⟩ := carries_colon last colon
  exact ⟨rest', skipKey_eq_ok.mpr ⟨r', after', next', key', colon'⟩, ends⟩

def onward (fuel : Nat) (frame : Frame) (frames : List Frame) (r : List UInt8) : Except Fault (List UInt8) :=
  match frame with
  | .list => skipFrom fuel .value (.list :: frames) r
  | .object =>
    match skipKey r with
    | .error f => .error f
    | .ok r => skipFrom fuel .value (.object :: frames) r

theorem skipFrom_inside (fuel : Nat) (comma : Bool) (frame : Frame) (frames : List Frame) (bs : List UInt8) :
    skipFrom (fuel + 1) (.inside comma) (frame :: frames) bs =
      match skipBlanks bs with
      | [] => .error (.before (if frame = .list then .endInList else .endInObject) [])
      | b :: r =>
        if comma && b == 44 then onward fuel frame frames r
        else if b == closing frame then skipFrom fuel (.inside true) frames r
        else if comma then
          .error (.on (if frame = .list then .listCommaExpected else .objectCommaExpected) (b :: r))
        else onward fuel frame frames (b :: r) := by
  cases frame <;> rfl

section
variable {fuel fuel' : Nat} {frame : Frame} {frames : List Frame}

theorem carries_onward
    (later : ∀ stand frames, CarriesTo (skipFrom fuel stand frames) (skipFrom fuel' stand frames)) :
    CarriesTo (onward fuel frame frames) (onward fuel' frame frames) := by
  intro bs bs' rest alike read
  cases frame with
  | list => exact later _ _ alike read
  | object =>
    rw [onward] at read ⊢
    cases key : skipKey bs with
    | error f =>
      rw [key] at read
      cases read
    | ok after =>
      obtain ⟨after', key', alike'⟩ := carries_skipKey alike key
      rw [key] at read
      rw [key']
      exact later _ _ alike' read

theorem carries_value
    (later : ∀ stand frames, CarriesTo (skipFrom fuel stand frames) (skipFrom fuel' stand frames)) :
    CarriesTo (skipFrom (fuel + 1) .value frames) (skipFrom (fuel' + 1) .value frames) := by
  intro bs bs' rest alike read
  rw [skipFrom] at read ⊢
  split at read
  case h_1 => cases read
  case h_2 b r next =>
    cases token : skipToken b r with
    | error f =>
      rw [token] at read
      cases read
    | ok found =>
      obtain ⟨opened, after⟩ := found
      obtain ⟨r', next', alike'⟩ := alike_next alike next (skipToken_ascii token)
      obtain ⟨after', token', ends⟩ := carries_skipToken alike' token
      rw [token] at read
      rw [next']
      dsimp only
      rw [token']
      cases opened with
      | some frame => exact later _ _ ends read
      | none =>
        dsimp only at read ⊢
        split at read
        case isTrue whole =>
          cases read
          exact ⟨after', if_pos whole, ends⟩
        case isFalse nested =>
          rw [if_neg nested]
          exact later _ _ ends read

theorem closing_ascii {b : UInt8} (closes : (b == closing frame) = true) : b.toNat < 128 := by
  rw [eq_of_beq closes]
  cases frame <;> decide

theorem carries_inside
    (later : ∀ stand frames, CarriesTo (skipFrom fuel stand frames) (skipFrom fuel' stand frames)) (comma : Bool) :
    CarriesTo (skipFrom (fuel + 1) (.inside comma) (frame :: frames))
      (skipFrom (fuel' + 1) (.inside comma) (frame :: frames)) := by
  intro bs bs' rest alike read
  rw [skipFrom_inside] at read ⊢
  cases next : skipBlanks bs with
  | nil =>
    rw [next] at read
    cases read
  | cons b r =>
    rw [next] at read
    dsimp only at read
    by_cases separator : (comma && b == 44) = true
    · rw [if_pos separator] at read
      have comma : b = 44 := eq_of_beq (Bool.and_eq_true_iff.mp separator).2
      obtain ⟨r', next', alike'⟩ := alike_next alike next (comma ▸ by decide)
      rw [next']
      dsimp only
      rw [if_pos separator]
      exact carries_onward later alike' read
    rw [if_neg separator] at read
    by_cases closes : (b == closing frame) = true
    · rw [if_pos closes] at read
      obtain ⟨r', next', alike'⟩ := alike_next alike next (closing_ascii closes)
      rw [next']
      dsimp only
      rw [if_neg separator, if_pos closes]
      exact later _ _ alike' read
    rw [if_neg closes] at read
    split at read
    case isTrue => cases read
    case isFalse first =>
      have alike' := alike_skipBlanks alike
      rw [next] at alike'
      have other := alike_other (fun _ => closing_ascii) alike' (fun c head => by cases head; simpa using closes)
      cases next' : skipBlanks bs' with
      | nil =>
        rw [next'] at alike'
        rcases alike_head alike' with ⟨_, impossible, _⟩ | ⟨-, _, _, impossible, _⟩ <;> cases impossible
      | cons y r' =>
        rw [next'] at alike' other
        dsimp only
        rw [if_neg (by simp [first]), if_neg (by simpa using other y rfl), if_neg first]
        exact carries_onward later alike' read

end

/-- With at least the same fuel, a value of mended bytes is passed over as before. -/
theorem carries_skipFrom {fuel fuel' : Nat} (enough : fuel ≤ fuel') (stand : Stand) (frames : List Frame) :
    CarriesTo (skipFrom fuel stand frames) (skipFrom fuel' stand frames) := by
  induction fuel generalizing fuel' stand frames with
  | zero =>
    intro bs bs' rest alike read
    cases read
  | succ fuel ih =>
    obtain ⟨fuel', rfl⟩ := Nat.exists_eq_succ_of_ne_zero (n := fuel') (by omega)
    have later := ih (Nat.le_of_succ_le_succ enough)
    cases stand with
    | value => exact carries_value later
    | inside comma =>
      cases frames with
      | nil =>
        intro bs bs' rest alike read
        cases read
        exact ⟨bs', rfl, alike⟩
      | cons frame frames => exact carries_inside later comma

theorem carries_skip : Carries skip := by
  intro bs bs' rest alike read
  have longer := alike_length alike
  exact carries_skipFrom (by omega) .value [] alike read

end CampaignSettlement.Json
