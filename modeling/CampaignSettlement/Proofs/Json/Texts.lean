import CampaignSettlement.Json.Value
import CampaignSettlement.Json.Token
import CampaignSettlement.Proofs.Text.Utf8

/-!
Texts between quotes. What a text spells is told by a relation without fuel: plain bytes stand for themselves, an
escape for the bytes of one character. A quoted text spells the text that was quoted.
-/
namespace CampaignSettlement.Json

open String (utf8EncodeChar)
open Text.Utf8 (Narrow Wide char_ascii char_wide chars_one decode?_eq_some encode toNat_of)

theorem hexDigit_narrow {b : UInt8} {n : Nat} (digit : hexDigit b = some n) : b.toNat < 128 := by
  simp only [hexDigit, Bool.and_eq_true, decide_eq_true_eq, UInt8.le_iff_toNat_le, UInt8.reduceToNat] at digit
  by_contra wide
  rw [if_neg (by omega), if_neg (by omega), if_neg (by omega)] at digit
  cases digit

theorem hexUnit_local {bs r : List UInt8} {n : Nat} (unit : hexUnit bs = .ok (n, r)) :
    ∃ p, bs = p ++ r ∧ p ≠ [] ∧ Narrow p ∧ ∀ r', hexUnit (p ++ r') = .ok (n, r') := by
  unfold hexUnit at unit
  split at unit
  · rename_i a b c d rest
    split at unit
    · rename_i w x y z first second third fourth
      cases unit
      refine ⟨[a, b, c, d], rfl, by simp, ?_, fun r' => by simp [hexUnit, first, second, third, fourth]⟩
      simp [Narrow, hexDigit_narrow first, hexDigit_narrow second, hexDigit_narrow third, hexDigit_narrow fourth]
    · cases unit
  · cases unit

theorem letterEscape_narrow {b c : UInt8} (letter : letterEscape b = some c) : b.toNat < 128 ∧ c.toNat < 128 := by
  simp only [letterEscape, Bool.or_eq_true, beq_iff_eq] at letter
  split at letter
  · rename_i same
    cases letter
    rcases same with (rfl | rfl) | rfl <;> decide
  repeat' split at letter
  all_goals simp_all <;> subst letter <;> decide

theorem lowHalf_local {high : Nat} {bs r : List UInt8} {c : Char} (low : lowHalf high bs = .ok (c, r)) :
    ∃ p, bs = p ++ r ∧ p ≠ [] ∧ Narrow p ∧ ∀ r', lowHalf high (p ++ r') = .ok (c, r') := by
  fun_cases lowHalf high bs with
  | case1 rest f failed => simp [lowHalf, failed] at low
  | case2 rest n rest' unit bounds =>
    simp only [lowHalf, unit] at low
    rw [if_pos bounds, Except.ok.injEq, Prod.mk.injEq] at low
    obtain ⟨rfl, rfl⟩ := low
    obtain ⟨p, rfl, -, narrow, reread⟩ := hexUnit_local unit
    refine ⟨92 :: 117 :: p, rfl, by simp, by simpa [Narrow] using narrow, fun r' => ?_⟩
    simp only [List.cons_append, lowHalf, reread]
    exact if_pos bounds
  | case3 rest n rest' unit bounds =>
    simp only [lowHalf, unit] at low
    rw [if_neg bounds] at low
    cases low
  | case4 => cases low
  | case5 => cases low
  | case6 | case7 => rw [lowHalf] at low <;> first | assumption | cases low

theorem escape_local {bs e r : List UInt8} (escape : escapeBytes bs = .ok (e, r)) :
    ∃ p, bs = p ++ r ∧ p ≠ [] ∧ Narrow p ∧ (∃ c, e = utf8EncodeChar c) ∧ ∀ r', escapeBytes (p ++ r') = .ok (e, r') := by
  unfold escapeBytes at escape
  split at escape
  · cases escape
  · rename_i rest
    split at escape
    · cases escape
    · rename_i n rest' unit
      obtain ⟨p, rfl, -, narrow, reread⟩ := hexUnit_local unit
      have narrow' : Narrow (117 :: p) := List.forall_mem_cons.mpr ⟨by decide, narrow⟩
      split at escape
      · cases escape
      · rename_i notLow
        split at escape
        · rename_i high
          cases pair : lowHalf n rest' with
          | error f => rw [pair] at escape; cases escape
          | ok found =>
            obtain ⟨c, after⟩ := found
            rw [pair] at escape
            cases escape
            obtain ⟨q, rfl, -, narrow'', reread'⟩ := lowHalf_local pair
            refine ⟨117 :: p ++ q, by simp, by simp, ?_, ⟨c, rfl⟩, fun r' => ?_⟩
            · intro b member
              exact (List.mem_append.mp member).elim (narrow' b) (narrow'' b)
            · simp only [List.cons_append, List.append_assoc, escapeBytes, reread, reread']
              rw [if_neg notLow, if_pos high]
              rfl
        · rename_i single
          cases escape
          refine ⟨117 :: p, rfl, by simp, narrow', ⟨_, rfl⟩, fun r' => ?_⟩
          simp only [List.cons_append, escapeBytes, reread]
          rw [if_neg notLow, if_neg single]
  · rename_i b rest other
    split at escape
    · rename_i c letter
      cases escape
      obtain ⟨narrow, narrow'⟩ := letterEscape_narrow letter
      refine ⟨[b], rfl, by simp, by simpa [Narrow] using narrow, ⟨Char.ofNat c.toNat, ?_⟩, fun r' => ?_⟩
      · rw [chars_one narrow', UInt8.ofNat_toNat]
      · rw [List.cons_append, List.nil_append, escapeBytes]
        · rw [letter]
        · exact other
    · cases escape

/-- The bytes `t` are spelled before the closing quote; `rest` comes after it. -/
inductive Spells : List UInt8 → List UInt8 → List UInt8 → Prop
  | close (rest : List UInt8) : Spells (34 :: rest) [] rest
  | escape {bs e r t rest : List UInt8} :
    escapeBytes bs = .ok (e, r) → Spells r t rest → Spells (92 :: bs) (e ++ t) rest
  | plain {b : UInt8} {r t rest : List UInt8} :
    b ≠ 34 → b ≠ 92 → 32 ≤ b.toNat → Spells r t rest → Spells (b :: r) (b :: t) rest

theorem textBytes_of_spells {bs t rest : List UInt8} (spells : Spells bs t rest) :
    ∀ fuel, bs.length ≤ fuel → textBytes fuel bs = .ok (t, rest) := by
  induction spells with
  | close rest =>
    intro fuel enough
    obtain ⟨fuel, rfl⟩ := Nat.exists_eq_succ_of_ne_zero (n := fuel) (by simp at enough; omega)
    simp [textBytes]
  | @escape bs e r t rest found spells ih =>
    intro fuel enough
    obtain ⟨fuel, rfl⟩ := Nat.exists_eq_succ_of_ne_zero (n := fuel) (by simp at enough; omega)
    obtain ⟨p, rfl, -, -⟩ := escape_local found
    simp only [List.length_cons, List.length_append] at enough
    simp [textBytes, found, ih fuel (by omega), Except.map]
  | @plain b r t rest notQuote notEscape high spells ih =>
    intro fuel enough
    obtain ⟨fuel, rfl⟩ := Nat.exists_eq_succ_of_ne_zero (n := fuel) (by simp at enough; omega)
    simp only [List.length_cons] at enough
    have printable : ¬ b < 32 := fun low => absurd (UInt8.lt_iff_toNat_lt.mp low) (Nat.not_lt.mpr high)
    simp [textBytes, notQuote, notEscape, printable, ih fuel (by omega), Except.map]

theorem spells_of_textBytes {fuel : Nat} {bs t rest : List UInt8} (read : textBytes fuel bs = .ok (t, rest)) :
    Spells bs t rest := by
  induction fuel generalizing bs t rest with
  | zero => cases read
  | succ fuel ih =>
    cases bs with
    | nil => cases read
    | cons b r =>
      rw [textBytes] at read
      split at read
      · rename_i quote
        cases read
        rw [beq_iff_eq] at quote
        exact quote ▸ .close _
      · rename_i notQuote
        split at read
        · rename_i backslash
          rw [beq_iff_eq] at backslash
          subst backslash
          cases escape : escapeBytes r with
          | error f => rw [escape] at read; cases read
          | ok found =>
            obtain ⟨e, r'⟩ := found
            cases later : textBytes fuel r' with
            | error f => rw [escape] at read; simp [later, Except.map] at read
            | ok found =>
              obtain ⟨t', rest'⟩ := found
              rw [escape] at read
              simp only [later, Except.map, Except.ok.injEq, Prod.mk.injEq] at read
              obtain ⟨rfl, rfl⟩ := read
              exact .escape escape (ih later)
        · rename_i notEscape
          split at read
          · cases read
          · rename_i printable
            cases later : textBytes fuel r with
            | error f => simp [later, Except.map] at read
            | ok found =>
              obtain ⟨t', rest'⟩ := found
              simp only [later, Except.map, Except.ok.injEq, Prod.mk.injEq] at read
              obtain ⟨rfl, rfl⟩ := read
              refine .plain (by simpa using notQuote) (by simpa using notEscape) ?_ (ih later)
              exact Nat.not_lt.mp fun low => printable (UInt8.lt_iff_toNat_lt.mpr low)

/-- A text is read exactly where its bytes are spelled. -/
theorem text_eq_ok {bs rest : List UInt8} {s : String} : text bs = .ok (s, rest) ↔ Spells bs (encode s) rest := by
  constructor
  · intro read
    rw [text] at read
    cases bytes : textBytes bs.length bs with
    | error f => rw [bytes] at read; cases read
    | ok found =>
      obtain ⟨t, after⟩ := found
      rw [bytes] at read
      cases valid : Text.Utf8.decode? t with
      | none => simp [valid] at read
      | some s' =>
        simp only [valid, Except.ok.injEq, Prod.mk.injEq] at read
        obtain ⟨rfl, rfl⟩ := read
        exact decode?_eq_some.mp valid ▸ spells_of_textBytes bytes
  · intro spells
    rw [text, textBytes_of_spells spells _ le_rfl]
    simp only [decode?_eq_some.mpr rfl]

/-! The bytes of a text as it is written. -/

def bytes (cs : List Char) : List UInt8 := cs.flatMap utf8EncodeChar

@[simp] theorem bytes_nil : bytes [] = [] := rfl

theorem bytes_cons (c : Char) (cs : List Char) : bytes (c :: cs) = utf8EncodeChar c ++ bytes cs := rfl

@[simp] theorem bytes_append (cs ds : List Char) : bytes (cs ++ ds) = bytes cs ++ bytes ds := List.flatMap_append

theorem spells_wide {xs bs t rest : List UInt8} (wide : Wide xs) (spells : Spells bs t rest) :
    Spells (xs ++ bs) (xs ++ t) rest := by
  induction xs with
  | nil => exact spells
  | cons x xs ih =>
    have high := wide x (by simp)
    refine .plain ?_ ?_ (by omega) (ih fun b member => wide b (by simp [member]))
    · rintro rfl
      simp at high
    · rintro rfl
      simp at high

theorem hexDigit_digitChar : ∀ n < 16, hexDigit (UInt8.ofNat (Nat.digitChar n).toNat) = some n := by decide

theorem digitChar_ascii : ∀ n < 16, (Nat.digitChar n).toNat < 128 := by decide

theorem escape_control {c : Char} (low : c.toNat < 32) (bs : List UInt8) :
    escapeBytes (bytes ['u', '0', '0', Nat.digitChar (c.toNat / 16), Nat.digitChar (c.toNat % 16)] ++ bs) =
      .ok (utf8EncodeChar c, bs) := by
  have high := hexDigit_digitChar (c.toNat / 16) (by omega)
  have unit := hexDigit_digitChar (c.toNat % 16) (by omega)
  have written : bytes ['u', '0', '0', Nat.digitChar (c.toNat / 16), Nat.digitChar (c.toNat % 16)] =
      [117, 48, 48, UInt8.ofNat (Nat.digitChar (c.toNat / 16)).toNat,
        UInt8.ofNat (Nat.digitChar (c.toNat % 16)).toNat] := by
    simp only [bytes_cons, bytes_nil, char_ascii (digitChar_ascii _ (by omega : c.toNat / 16 < 16)),
      char_ascii (digitChar_ascii _ (by omega : c.toNat % 16 < 16))]
    rfl
  have zero : hexDigit 48 = some 0 := rfl
  have number : ((0 * 16 + 0) * 16 + c.toNat / 16) * 16 + c.toNat % 16 = c.toNat := by omega
  simp only [written, List.cons_append, List.nil_append, escapeBytes, hexUnit, zero, high, unit, number]
  rw [if_neg (by simp; omega), if_neg (by simp; omega), Char.ofNat_toNat]

theorem spells_escaped (c : Char) {bs t rest : List UInt8} (spells : Spells bs t rest) :
    Spells (bytes (escaped c) ++ bs) (utf8EncodeChar c ++ t) rest := by
  fun_cases escaped c with
  | case8 c =>
    rename_i control
    exact .escape (escape_control control bs) spells
  | case9 c notQuote notEscape =>
    rename_i printable
    rw [bytes_cons, bytes_nil, List.append_nil]
    rcases Nat.lt_or_ge c.toNat 128 with narrow | wide
    · rw [char_ascii narrow]
      have number := toNat_of (n := c.toNat) (by omega)
      refine .plain ?_ ?_ (by omega) spells
      · intro quote
        exact notQuote (Char.toNat_inj.mp (number.symm.trans (congrArg UInt8.toNat quote)))
      · intro backslash
        exact notEscape (Char.toNat_inj.mp (number.symm.trans (congrArg UInt8.toNat backslash)))
    · exact spells_wide (char_wide wide) spells
  | _ => exact .escape rfl spells

theorem spells_text (cs : List Char) (rest : List UInt8) :
    Spells (bytes (cs.flatMap escaped) ++ 34 :: rest) (bytes cs) rest := by
  induction cs with
  | nil => exact .close rest
  | cons c cs ih =>
    rw [List.flatMap_cons, bytes_append, List.append_assoc]
    exact spells_escaped c ih

theorem bytes_quote (s : String) : bytes (quote s) = 34 :: (bytes (s.toList.flatMap escaped) ++ [34]) := by
  rw [quote, bytes_cons, bytes_append]
  rfl

theorem text_quoted (s : String) (rest : List UInt8) :
    text (bytes (s.toList.flatMap escaped) ++ 34 :: rest) = .ok (s, rest) :=
  text_eq_ok.mpr (spells_text s.toList rest)

end CampaignSettlement.Json
