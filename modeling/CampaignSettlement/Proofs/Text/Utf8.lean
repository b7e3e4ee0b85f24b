import Mathlib.Tactic
import CampaignSettlement.Text.Utf8

/-!
Writing and reading UTF-8 are inverse to each other. Both are told by the sequences: a number, its bytes, and
the bounds of these. The bytes of a character are a sequence, and a sequence is read as its character.
-/
namespace CampaignSettlement.Text.Utf8

open String (utf8EncodeChar)

theorem encode_ofList (cs : List Char) : encode (String.ofList cs) = cs.flatMap utf8EncodeChar := by
  simp [encode]

/-! The bytes of a character, by size. -/

theorem toNat_ofNat {v : Nat} (valid : v.isValidChar) : (Char.ofNat v).val.toNat = v := by
  rw [Char.ofNat, dif_pos valid]
  rfl

theorem chars_one {v : Nat} (high : v < 0x80) : utf8EncodeChar (Char.ofNat v) = [UInt8.ofNat v] := by
  simp only [utf8EncodeChar, toNat_ofNat (.inl (by omega : v < 55296))]
  rw [if_pos (by omega)]

theorem chars_two {v : Nat} (low : 0x80 ≤ v) (high : v < 0x800) :
    utf8EncodeChar (Char.ofNat v) = [UInt8.ofNat (v / 64 + 192), UInt8.ofNat (v % 64 + 128)] := by
  simp only [utf8EncodeChar, toNat_ofNat (.inl (by omega : v < 55296))]
  rw [if_neg (by omega), if_pos (by omega), Nat.mod_eq_of_lt (by omega : v / 64 < 32)]

theorem chars_three {v : Nat} (low : 0x800 ≤ v) (high : v < 0x10000) (valid : v.isValidChar) :
    utf8EncodeChar (Char.ofNat v) =
      [UInt8.ofNat (v / 4096 + 224), UInt8.ofNat (v / 64 % 64 + 128), UInt8.ofNat (v % 64 + 128)] := by
  simp only [utf8EncodeChar, toNat_ofNat valid]
  rw [if_neg (by omega), if_neg (by omega), if_pos (by omega), Nat.mod_eq_of_lt (by omega : v / 4096 < 16)]

theorem chars_four {v : Nat} (low : 0x10000 ≤ v) (high : v < 0x110000) :
    utf8EncodeChar (Char.ofNat v) =
      [UInt8.ofNat (v / 262144 + 240), UInt8.ofNat (v / 4096 % 64 + 128), UInt8.ofNat (v / 64 % 64 + 128),
        UInt8.ofNat (v % 64 + 128)] := by
  simp only [utf8EncodeChar, toNat_ofNat (.inr ⟨by omega, high⟩)]
  rw [if_neg (by omega), if_neg (by omega), if_neg (by omega),
    Nat.mod_eq_of_lt (by omega : v / 262144 < 8)]

/-! The bounds of the bytes of a sequence. -/

theorem following_iff (b : UInt8) (n : Nat) (lo hi : UInt8) : following b = some (n, lo, hi) ↔
    (n = 1 ∧ lo = 0x80 ∧ hi = 0xBF ∧ 0xC2 ≤ b.toNat ∧ b.toNat ≤ 0xDF) ∨
    (n = 2 ∧ lo = 0xA0 ∧ hi = 0xBF ∧ b.toNat = 0xE0) ∨
    (n = 2 ∧ lo = 0x80 ∧ hi = 0x9F ∧ b.toNat = 0xED) ∨
    (n = 2 ∧ lo = 0x80 ∧ hi = 0xBF ∧ 0xE1 ≤ b.toNat ∧ b.toNat ≤ 0xEF ∧ b.toNat ≠ 0xED) ∨
    (n = 3 ∧ lo = 0x90 ∧ hi = 0xBF ∧ b.toNat = 0xF0) ∨
    (n = 3 ∧ lo = 0x80 ∧ hi = 0xBF ∧ 0xF1 ≤ b.toNat ∧ b.toNat ≤ 0xF3) ∨
    (n = 3 ∧ lo = 0x80 ∧ hi = 0x8F ∧ b.toNat = 0xF4) := by
  have number : ∀ {c : UInt8}, (b == c) = true ↔ b.toNat = c.toNat := by simp [← UInt8.toNat_inj]
  have within : ∀ {lo hi : UInt8}, (decide (lo ≤ b) && decide (b ≤ hi)) = true ↔
      lo.toNat ≤ b.toNat ∧ b.toNat ≤ hi.toNat := by simp [UInt8.le_iff_toNat_le]
  simp only [following, number, within, UInt8.reduceToNat]
  constructor
  · intro follows
    repeat' split at follows
    all_goals cases follows
    all_goals simp
    all_goals omega
  · rintro (⟨rfl, rfl, rfl, _, _⟩ | ⟨rfl, rfl, rfl, _⟩ | ⟨rfl, rfl, rfl, _⟩ | ⟨rfl, rfl, rfl, _, _, _⟩ |
      ⟨rfl, rfl, rfl, _⟩ | ⟨rfl, rfl, rfl, _, _⟩ | ⟨rfl, rfl, rfl, _⟩)
    all_goals simp (disch := omega) only [if_pos, if_neg]

theorem tails_prefix (n : Nat) (lo hi : UInt8) (r : List UInt8) : tails n lo hi r <+: r := by
  fun_induction tails n lo hi r with
  | case1 n lo hi b r inside ih => exact List.cons_prefix_cons.mpr ⟨rfl, ih⟩
  | case2 => exact List.nil_prefix
  | case3 => exact List.nil_prefix

theorem tails_length_le (n : Nat) (lo hi : UInt8) (r : List UInt8) : (tails n lo hi r).length ≤ n := by
  fun_induction tails n lo hi r with
  | case1 n lo hi b r inside ih => exact Nat.succ_le_succ ih
  | case2 => exact Nat.zero_le _
  | case3 => exact Nat.zero_le _

def Narrow (bs : List UInt8) : Prop := ∀ b ∈ bs, b.toNat < 128

instance (bs : List UInt8) : Decidable (Narrow bs) := List.decidableBAll _ bs

def Wide (bs : List UInt8) : Prop := ∀ b ∈ bs, 128 ≤ b.toNat

theorem tails_wide (n : Nat) (lo hi : UInt8) (r : List UInt8) (low : 128 ≤ lo.toNat) :
    Wide (tails n lo hi r) := by
  fun_induction tails n lo hi r with
  | case1 n lo hi b r inside ih =>
    simp only [Bool.and_eq_true, decide_eq_true_eq, UInt8.le_iff_toNat_le] at inside
    intro c member
    rcases List.mem_cons.mp member with rfl | member
    · omega
    · exact ih (by decide) c member
  | case2 => simp [Wide]
  | case3 => simp [Wide]

theorem tails_cons (n : Nat) (lo hi b : UInt8) (r : List UInt8) :
    tails (n + 1) lo hi (b :: r) =
      if lo.toNat ≤ b.toNat ∧ b.toNat ≤ hi.toNat then b :: tails n 0x80 0xBF r else [] := by
  simp [tails, UInt8.le_iff_toNat_le]

theorem tails_none (lo hi : UInt8) (r : List UInt8) : tails 0 lo hi r = [] := by
  cases r <;> rfl

theorem tails_full {n : Nat} {lo hi : UInt8} {r : List UInt8} (full : (tails (n + 1) lo hi r).length = n + 1) :
    ∃ t r', r = t :: r' ∧ lo.toNat ≤ t.toNat ∧ t.toNat ≤ hi.toNat ∧ (tails n 0x80 0xBF r').length = n ∧
      tails (n + 1) lo hi r = t :: tails n 0x80 0xBF r' := by
  match r with
  | [] => simp [tails] at full
  | t :: r' =>
    rw [tails_cons] at full ⊢
    split at full
    · rename_i inside
      exact ⟨t, r', rfl, inside.1, inside.2, by simpa using full, if_pos inside⟩
    · simp at full

/-! What stands first. -/

theorem first_ascii {b : UInt8} (narrow : b.toNat < 128) (r : List UInt8) :
    first b r = (some (Char.ofNat b.toNat), 0) := by
  rw [first, if_pos (UInt8.lt_iff_toNat_lt.mpr narrow)]
  congr
  apply Char.ext
  apply UInt32.toNat_inj.mp
  rw [toNat_ofNat (.inl (by omega))]
  rfl

theorem first_wide {b : UInt8} (wide : 128 ≤ b.toNat) {n : Nat} {lo hi : UInt8}
    (follows : following b = some (n, lo, hi)) (r : List UInt8) :
    first b r = if (tails n lo hi r).length = n then
      (some (Char.ofNat ((tails n lo hi r).foldl (fun v t => v * 64 + (t.toNat - 0x80)) (leadBits n b))), n)
    else (none, (tails n lo hi r).length) := by
  have high : ¬ b < 0x80 := fun narrow => Nat.not_le.mpr (UInt8.lt_iff_toNat_lt.mp narrow) wide
  rw [first, if_neg high, follows]

/-- The number `v` and its bytes. -/
inductive Sequence : Nat → List UInt8 → Prop
  | one {b : UInt8} : b.toNat < 0x80 → Sequence b.toNat [b]
  | two {b t : UInt8} : 0xC2 ≤ b.toNat → b.toNat ≤ 0xDF → 0x80 ≤ t.toNat → t.toNat ≤ 0xBF →
    Sequence ((b.toNat - 0xC0) * 64 + (t.toNat - 0x80)) [b, t]
  | three {b t u : UInt8} {lo hi : UInt8} : following b = some (2, lo, hi) →
    lo.toNat ≤ t.toNat → t.toNat ≤ hi.toNat → 0x80 ≤ u.toNat → u.toNat ≤ 0xBF →
    Sequence (((b.toNat - 0xE0) * 64 + (t.toNat - 0x80)) * 64 + (u.toNat - 0x80)) [b, t, u]
  | four {b t u w : UInt8} {lo hi : UInt8} : following b = some (3, lo, hi) →
    lo.toNat ≤ t.toNat → t.toNat ≤ hi.toNat → 0x80 ≤ u.toNat → u.toNat ≤ 0xBF →
    0x80 ≤ w.toNat → w.toNat ≤ 0xBF →
    Sequence ((((b.toNat - 0xF0) * 64 + (t.toNat - 0x80)) * 64 + (u.toNat - 0x80)) * 64 + (w.toNat - 0x80))
      [b, t, u, w]

theorem ofNat_eq {n : Nat} {b : UInt8} (number : n = b.toNat) : UInt8.ofNat n = b := by
  rw [number]
  exact UInt8.ofNat_toNat

theorem following_two {b lo hi : UInt8} (follows : following b = some (2, lo, hi)) :
    0xE0 ≤ b.toNat ∧ b.toNat ≤ 0xEF ∧ 0x80 ≤ lo.toNat ∧ hi.toNat ≤ 0xBF ∧
      (b.toNat = 0xE0 → 0xA0 ≤ lo.toNat) ∧ (b.toNat = 0xED → hi.toNat ≤ 0x9F) := by
  rcases (following_iff ..).mp follows with h | ⟨-, rfl, rfl, h⟩ | ⟨-, rfl, rfl, h⟩ | ⟨-, rfl, rfl, h⟩ | h | h | h <;>
    simp at h ⊢ <;> omega

theorem following_three {b lo hi : UInt8} (follows : following b = some (3, lo, hi)) :
    0xF0 ≤ b.toNat ∧ b.toNat ≤ 0xF4 ∧ 0x80 ≤ lo.toNat ∧ hi.toNat ≤ 0xBF ∧
      (b.toNat = 0xF0 → 0x90 ≤ lo.toNat) ∧ (b.toNat = 0xF4 → hi.toNat ≤ 0x8F) := by
  rcases (following_iff ..).mp follows with h | h | h | h | ⟨-, rfl, rfl, h⟩ | ⟨-, rfl, rfl, h⟩ | ⟨-, rfl, rfl, h⟩ <;>
    simp at h ⊢ <;> omega

theorem Sequence.char {v : Nat} {bs : List UInt8} (sequence : Sequence v bs) :
    v.isValidChar ∧ utf8EncodeChar (Char.ofNat v) = bs := by
  cases sequence with
  | one narrow => exact ⟨.inl (by omega), by rw [chars_one narrow, ofNat_eq rfl]⟩
  | @two b t =>
    refine ⟨.inl (by omega), ?_⟩
    rw [chars_two (by omega) (by omega)]
    simp only [List.cons.injEq, and_true]
    exact ⟨ofNat_eq (by omega), ofNat_eq (by omega)⟩
  | @three b t u lo hi follows =>
    have bounds := following_two follows
    have valid : (((b.toNat - 0xE0) * 64 + (t.toNat - 0x80)) * 64 + (u.toNat - 0x80)).isValidChar := by
      rw [Nat.isValidChar]
      omega
    refine ⟨valid, ?_⟩
    rw [chars_three (by omega) (by omega) valid]
    simp only [List.cons.injEq, and_true]
    exact ⟨ofNat_eq (by omega), ofNat_eq (by omega), ofNat_eq (by omega)⟩
  | @four b t u w lo hi follows =>
    have bounds := following_three follows
    refine ⟨.inr ⟨by omega, by omega⟩, ?_⟩
    rw [chars_four (by omega) (by omega)]
    simp only [List.cons.injEq, and_true]
    exact ⟨ofNat_eq (by omega), ofNat_eq (by omega), ofNat_eq (by omega), ofNat_eq (by omega)⟩

theorem lead_three {b t : UInt8} (low : 0xE0 ≤ b.toNat) (high : b.toNat ≤ 0xEF) (tail : 0x80 ≤ t.toNat)
    (tail' : t.toNat ≤ 0xBF) (least : b.toNat = 0xE0 → 0xA0 ≤ t.toNat) (gap : b.toNat = 0xED → t.toNat ≤ 0x9F) :
    ∃ lo hi, following b = some (2, lo, hi) ∧ lo.toNat ≤ t.toNat ∧ t.toNat ≤ hi.toNat := by
  by_cases first : b.toNat = 0xE0
  · exact ⟨0xA0, 0xBF, (following_iff ..).mpr (.inr (.inl ⟨rfl, rfl, rfl, first⟩)), least first, tail'⟩
  by_cases middle : b.toNat = 0xED
  · exact ⟨0x80, 0x9F, (following_iff ..).mpr (.inr (.inr (.inl ⟨rfl, rfl, rfl, middle⟩))), tail, gap middle⟩
  · exact ⟨0x80, 0xBF,
      (following_iff ..).mpr (.inr (.inr (.inr (.inl ⟨rfl, rfl, rfl, by omega, high, middle⟩)))), tail, tail'⟩

theorem lead_four {b t : UInt8} (low : 0xF0 ≤ b.toNat) (high : b.toNat ≤ 0xF4) (tail : 0x80 ≤ t.toNat)
    (tail' : t.toNat ≤ 0xBF) (least : b.toNat = 0xF0 → 0x90 ≤ t.toNat) (top : b.toNat = 0xF4 → t.toNat ≤ 0x8F) :
    ∃ lo hi, following b = some (3, lo, hi) ∧ lo.toNat ≤ t.toNat ∧ t.toNat ≤ hi.toNat := by
  by_cases first : b.toNat = 0xF0
  · exact ⟨0x90, 0xBF, (following_iff ..).mpr (.inr (.inr (.inr (.inr (.inl ⟨rfl, rfl, rfl, first⟩))))),
      least first, tail'⟩
  by_cases last : b.toNat = 0xF4
  · exact ⟨0x80, 0x8F, (following_iff ..).mpr (.inr (.inr (.inr (.inr (.inr (.inr ⟨rfl, rfl, rfl, last⟩)))))),
      tail, top last⟩
  · exact ⟨0x80, 0xBF,
      (following_iff ..).mpr (.inr (.inr (.inr (.inr (.inr (.inl ⟨rfl, rfl, rfl, by omega, by omega⟩)))))), tail,
      tail'⟩

theorem toNat_of {n : Nat} (byte : n < 256) : (UInt8.ofNat n).toNat = n := Nat.mod_eq_of_lt byte

theorem sequence_char (c : Char) : Sequence c.toNat (utf8EncodeChar c) := by
  obtain ⟨v, valid, rfl⟩ : ∃ v : Nat, v.isValidChar ∧ c = Char.ofNat v :=
    ⟨c.toNat, c.valid, (Char.ofNat_toNat c).symm⟩
  have number : (Char.ofNat v).toNat = v := toNat_ofNat valid
  have top : v < 0x110000 := by rcases valid with h | h <;> omega
  rw [number]
  rcases Nat.lt_or_ge v 0x80 with one | low
  · rw [chars_one one]
    have lead := toNat_of (n := v) (by omega)
    have sequence := Sequence.one (b := UInt8.ofNat v) (by omega)
    rwa [lead] at sequence
  rcases Nat.lt_or_ge v 0x800 with two | low
  · rw [chars_two low two]
    have lead := toNat_of (n := v / 64 + 192) (by omega)
    have tail := toNat_of (n := v % 64 + 128) (by omega)
    have sequence := Sequence.two (b := UInt8.ofNat (v / 64 + 192)) (t := UInt8.ofNat (v % 64 + 128))
      (by omega) (by omega) (by omega) (by omega)
    rw [lead, tail] at sequence
    convert sequence using 1
    omega
  rcases Nat.lt_or_ge v 0x10000 with three | low
  · rw [chars_three low three valid]
    have lead := toNat_of (n := v / 4096 + 224) (by omega)
    have second := toNat_of (n := v / 64 % 64 + 128) (by omega)
    have third := toNat_of (n := v % 64 + 128) (by omega)
    rw [Nat.isValidChar] at valid
    obtain ⟨lo, hi, follows, above, below⟩ := lead_three (b := UInt8.ofNat (v / 4096 + 224))
      (t := UInt8.ofNat (v / 64 % 64 + 128)) (by omega) (by omega) (by omega) (by omega) (by omega) (by omega)
    have sequence := Sequence.three follows above below (u := UInt8.ofNat (v % 64 + 128)) (by omega) (by omega)
    rw [lead, second, third] at sequence
    convert sequence using 1
    omega
  · rw [chars_four low top]
    have lead := toNat_of (n := v / 262144 + 240) (by omega)
    have second := toNat_of (n := v / 4096 % 64 + 128) (by omega)
    have third := toNat_of (n := v / 64 % 64 + 128) (by omega)
    have fourth := toNat_of (n := v % 64 + 128) (by omega)
    obtain ⟨lo, hi, follows, above, below⟩ := lead_four (b := UInt8.ofNat (v / 262144 + 240))
      (t := UInt8.ofNat (v / 4096 % 64 + 128)) (by omega) (by omega) (by omega) (by omega) (by omega) (by omega)
    have sequence := Sequence.four follows above below (u := UInt8.ofNat (v / 64 % 64 + 128))
      (w := UInt8.ofNat (v % 64 + 128)) (by omega) (by omega) (by omega) (by omega)
    rw [lead, second, third, fourth] at sequence
    convert sequence using 1
    omega

theorem first_sequence {v : Nat} {b : UInt8} {ts : List UInt8} (sequence : Sequence v (b :: ts)) (rest : List UInt8) :
    first b (ts ++ rest) = (some (Char.ofNat v), ts.length) := by
  cases sequence with
  | one narrow => exact first_ascii narrow rest
  | @two b t low high tail tail' =>
    have follows := (following_iff b 1 0x80 0xBF).mpr (.inl ⟨rfl, rfl, rfl, low, high⟩)
    have taken : tails 1 0x80 0xBF (t :: rest) = [t] := by
      rw [tails_cons, if_pos ⟨tail, tail'⟩, tails_none]
    rw [List.cons_append, List.nil_append, first_wide (by omega) follows, taken]
    rfl
  | @three b t u lo hi follows above below tail tail' =>
    have bounds := following_two follows
    have taken : tails 2 lo hi (t :: u :: rest) = [t, u] := by
      rw [tails_cons, if_pos ⟨above, below⟩, tails_cons, if_pos ⟨tail, tail'⟩, tails_none]
    rw [List.cons_append, List.cons_append, List.nil_append, first_wide (by omega) follows, taken]
    rfl
  | @four b t u w lo hi follows above below second second' third third' =>
    have bounds := following_three follows
    have taken : tails 3 lo hi (t :: u :: w :: rest) = [t, u, w] := by
      rw [tails_cons, if_pos ⟨above, below⟩, tails_cons, if_pos ⟨second, second'⟩, tails_cons,
        if_pos ⟨third, third'⟩, tails_none]
    rw [List.cons_append, List.cons_append, List.cons_append, List.nil_append, first_wide (by omega) follows, taken]
    rfl

theorem following_size {b : UInt8} {n : Nat} {lo hi : UInt8} (follows : following b = some (n, lo, hi)) :
    128 ≤ b.toNat ∧ 128 ≤ lo.toNat ∧
      ((n = 1 ∧ lo = 0x80 ∧ hi = 0xBF ∧ 0xC2 ≤ b.toNat ∧ b.toNat ≤ 0xDF) ∨ n = 2 ∨ n = 3) := by
  rcases (following_iff ..).mp follows with
    ⟨rfl, rfl, rfl, low, high⟩ | ⟨rfl, rfl, rfl, lead⟩ | ⟨rfl, rfl, rfl, lead⟩ | ⟨rfl, rfl, rfl, lead⟩ |
    ⟨rfl, rfl, rfl, lead⟩ | ⟨rfl, rfl, rfl, lead⟩ | ⟨rfl, rfl, rfl, lead⟩
  · exact ⟨by omega, by decide, .inl ⟨rfl, rfl, rfl, low, high⟩⟩
  all_goals exact ⟨by omega, by decide, by omega⟩

theorem first_stray {b : UInt8} (wide : 128 ≤ b.toNat) (follows : following b = none) (r : List UInt8) :
    first b r = (none, 0) := by
  have high : ¬ b < 0x80 := fun narrow => Nat.not_le.mpr (UInt8.lt_iff_toNat_lt.mp narrow) wide
  rw [first, if_neg high, follows]

theorem spelled_of_first {b : UInt8} {r : List UInt8} {c : Char} {n : Nat} (found : first b r = (some c, n)) :
    ∃ ts rest, r = ts ++ rest ∧ ts.length = n ∧ utf8EncodeChar c = b :: ts := by
  rcases Nat.lt_or_ge b.toNat 128 with narrow | wide
  · rw [first_ascii narrow] at found
    cases found
    exact ⟨[], r, rfl, rfl, (Sequence.one narrow).char.2⟩
  cases follows : following b with
  | none => cases (first_stray wide follows r).symm.trans found
  | some owed =>
    obtain ⟨k, lo, hi⟩ := owed
    rw [first_wide wide follows] at found
    split at found
    case isFalse => cases found
    case isTrue full =>
      cases found
      obtain ⟨-, -, ⟨rfl, rfl, rfl, low, high⟩ | rfl | rfl⟩ := following_size follows
      · obtain ⟨t, rest, rfl, tail, tail', -, eq⟩ := tails_full full
        rw [eq, tails_none]
        exact ⟨[t], rest, rfl, rfl, (Sequence.two low high tail tail').char.2⟩
      · obtain ⟨t, r', rfl, above, below, full', eq⟩ := tails_full full
        obtain ⟨u, rest, rfl, tail, tail', -, eq'⟩ := tails_full full'
        rw [eq, eq', tails_none]
        exact ⟨[t, u], rest, rfl, rfl, (Sequence.three follows above below tail tail').char.2⟩
      · obtain ⟨t, r', rfl, above, below, full', eq⟩ := tails_full full
        obtain ⟨u, r'', rfl, second, second', full'', eq'⟩ := tails_full full'
        obtain ⟨w, rest, rfl, third, third', -, eq''⟩ := tails_full full''
        rw [eq, eq', eq'', tails_none]
        exact ⟨[t, u, w], rest, rfl, rfl,
          (Sequence.four follows above below second second' third third').char.2⟩

/-- An invalid piece has at most three bytes, none of them ASCII. -/
theorem broken_of_first {b : UInt8} {r : List UInt8} {n : Nat} (broken : first b r = (none, n)) :
    ∃ ts rest, r = ts ++ rest ∧ ts.length = n ∧ n ≤ 2 ∧ Wide (b :: ts) := by
  rcases Nat.lt_or_ge b.toNat 128 with narrow | wide
  · cases (first_ascii narrow r).symm.trans broken
  cases follows : following b with
  | none =>
    cases (first_stray wide follows r).symm.trans broken
    exact ⟨[], r, rfl, rfl, by omega, by simpa [Wide] using wide⟩
  | some owed =>
    obtain ⟨k, lo, hi⟩ := owed
    rw [first_wide wide follows] at broken
    split at broken
    case isTrue => cases broken
    case isFalse short =>
      cases broken
      obtain ⟨rest, split⟩ := tails_prefix k lo hi r
      have most := tails_length_le k lo hi r
      obtain ⟨-, low, size⟩ := following_size follows
      refine ⟨_, rest, split.symm, rfl, by omega, ?_⟩
      exact List.forall_mem_cons.mpr ⟨wide, tails_wide k lo hi r low⟩

/-! The bytes of a character. -/

theorem spelled (c : Char) : ∃ b ts, utf8EncodeChar c = b :: ts := by
  have sequence := sequence_char c
  generalize utf8EncodeChar c = bs, c.toNat = v at sequence ⊢
  cases sequence <;> exact ⟨_, _, rfl⟩

theorem first_char {c : Char} {b : UInt8} {ts : List UInt8} (spelled : utf8EncodeChar c = b :: ts)
    (rest : List UInt8) : first b (ts ++ rest) = (some c, ts.length) := by
  have sequence := sequence_char c
  rw [spelled] at sequence
  rw [first_sequence sequence, Char.ofNat_toNat]

theorem char_ascii {c : Char} (narrow : c.toNat < 128) : utf8EncodeChar c = [UInt8.ofNat c.toNat] := by
  rw [← chars_one narrow, Char.ofNat_toNat]

theorem char_wide {c : Char} (wide : 128 ≤ c.toNat) : Wide (utf8EncodeChar c) := by
  have sequence := sequence_char c
  generalize utf8EncodeChar c = bs, c.toNat = v at sequence wide ⊢
  cases sequence with
  | one narrow => omega
  | two => simp [Wide]; omega
  | three follows =>
    have bounds := following_two follows
    simp [Wide]; omega
  | four follows =>
    have bounds := following_three follows
    simp [Wide]; omega

/-! Reading a list of bytes. -/

theorem pieces_skip (n : Nat) (r : List UInt8) : pieces n r = pieces 0 (r.drop n) := by
  induction n generalizing r with
  | zero => rfl
  | succ n ih =>
    cases r with
    | nil => rfl
    | cons b r => exact ih r

theorem pieces_char (c : Char) (rest : List UInt8) : pieces 0 (utf8EncodeChar c ++ rest) = some c :: pieces 0 rest := by
  obtain ⟨b, ts, split⟩ := spelled c
  rw [split, List.cons_append, pieces, first_char split, pieces_skip, List.drop_left]

theorem pieces_chars (cs : List Char) : pieces 0 (cs.flatMap utf8EncodeChar) = cs.map some := by
  induction cs with
  | nil => rfl
  | cons c cs ih => rw [List.flatMap_cons, pieces_char, ih, List.map_cons]

theorem allSome_map {α : Type} (as : List α) : allSome (as.map some) = some as := by
  induction as with
  | nil => rfl
  | cons a as ih => rw [List.map_cons, allSome, ih, Option.map_some]

theorem decode?_encode (s : String) : decode? (encode s) = some s := by
  rw [decode?, encode, pieces_chars, allSome_map, Option.map_some, String.ofList_toList]

theorem lossy_encode (s : String) : lossy (encode s) = s := by
  rw [lossy, encode, pieces_chars, List.map_map]
  exact (congrArg String.ofList (List.map_id _)).trans String.ofList_toList

theorem bytes_of_allSome {bs : List UInt8} {cs : List Char} (valid : allSome (pieces 0 bs) = some cs) :
    cs.flatMap utf8EncodeChar = bs := by
  induction cs generalizing bs with
  | nil =>
    cases bs with
    | nil => rfl
    | cons b r =>
      rw [pieces] at valid
      cases head : (first b r).1 <;> rw [head, allSome] at valid <;> simp at valid
  | cons c cs ih =>
    cases bs with
    | nil => cases valid
    | cons b r =>
      rw [pieces] at valid
      rcases head : first b r with ⟨o, n⟩
      rw [head] at valid
      cases o with
      | none => cases valid
      | some d =>
        obtain ⟨ts, rest, rfl, rfl, split⟩ := spelled_of_first head
        rw [pieces_skip, List.drop_left, allSome, Option.map_eq_some_iff] at valid
        obtain ⟨_, valid, eq⟩ := valid
        obtain ⟨rfl, rfl⟩ := List.cons.inj eq
        rw [List.flatMap_cons, split, ih valid, List.cons_append]

theorem decode?_eq_some {bs : List UInt8} {s : String} : decode? bs = some s ↔ bs = encode s := by
  refine ⟨fun valid => ?_, fun eq => eq ▸ decode?_encode s⟩
  rw [decode?, Option.map_eq_some_iff] at valid
  obtain ⟨cs, valid, rfl⟩ := valid
  rw [encode_ofList, bytes_of_allSome valid]

end CampaignSettlement.Text.Utf8
