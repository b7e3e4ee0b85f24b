import CampaignSettlement.Proofs.Text.Utf8

/-!
What lossy reading does to bytes. ASCII stays where it was, and each run outside ASCII, right or broken, becomes one
character that is not shorter. Whatever looks only at ASCII bytes sees the same before and after.
-/
namespace CampaignSettlement.Text.Utf8

open String (utf8EncodeChar)

/-- The same bytes, but for runs outside ASCII: where one stands, the other has a character that is not shorter. -/
inductive Alike : List UInt8 → List UInt8 → Prop
  | nil : Alike [] []
  | ascii {b : UInt8} {bs bs' : List UInt8} : b.toNat < 128 → Alike bs bs' → Alike (b :: bs) (b :: bs')
  | run {xs bs bs' : List UInt8} {c : Char} : xs ≠ [] → Wide xs → 128 ≤ c.toNat →
    xs.length ≤ (utf8EncodeChar c).length → Alike bs bs' → Alike (xs ++ bs) (utf8EncodeChar c ++ bs')

theorem char_nonempty (c : Char) : utf8EncodeChar c ≠ [] := by
  obtain ⟨b, ts, split⟩ := spelled c
  simp [split]

theorem char_of_wide {c : Char} {b : UInt8} {ts : List UInt8} (split : utf8EncodeChar c = b :: ts)
    (wide : 128 ≤ b.toNat) : 128 ≤ c.toNat := by
  by_contra narrow
  rw [char_ascii (by omega)] at split
  obtain ⟨rfl, -⟩ := List.cons.inj split
  have number := toNat_of (n := c.toNat) (by omega)
  omega

/-- Lossy reading leaves the bytes alike. -/
theorem alike_lossy (bs : List UInt8) : Alike bs (encode (lossy bs)) := by
  rw [lossy, encode_ofList]
  induction length : bs.length using Nat.strongRecOn generalizing bs with
  | ind n ih =>
    cases bs with
    | nil => exact .nil
    | cons b r =>
      have later : ∀ ts rest, r = ts ++ rest →
          Alike rest (((pieces 0 rest).map (·.getD '\uFFFD')).flatMap utf8EncodeChar) := fun ts rest split =>
        ih rest.length (by subst length split; simp) rest rfl
      rw [pieces, List.map_cons, List.flatMap_cons]
      rcases head : first b r with ⟨o, k⟩
      cases o with
      | some c =>
        obtain ⟨ts, rest, rfl, rfl, split⟩ := spelled_of_first head
        rw [pieces_skip, List.drop_left, Option.getD_some]
        rcases Nat.lt_or_ge b.toNat 128 with narrow | wide
        · obtain ⟨rfl, rfl⟩ : c = Char.ofNat b.toNat ∧ ts = [] := by
            have ascii := (first_ascii narrow (ts ++ rest)).symm.trans head
            simpa [eq_comm] using ascii
          rw [split]
          exact .ascii narrow (later [] rest rfl)
        · have high := char_of_wide split wide
          have run := Alike.run (by simp [split]) (char_wide high) high le_rfl (later ts rest rfl)
          rwa [split, List.cons_append] at run ⊢
      | none =>
        obtain ⟨ts, rest, rfl, rfl, short, wide⟩ := broken_of_first head
        rw [pieces_skip, List.drop_left, Option.getD_none]
        have three : (utf8EncodeChar '\uFFFD').length = 3 := by decide
        exact .run (List.cons_ne_nil b ts) wide (by decide) (by simp [three]; omega) (later ts rest rfl)

theorem alike_length {bs bs' : List UInt8} (alike : Alike bs bs') : bs.length ≤ bs'.length := by
  induction alike with
  | nil => exact le_rfl
  | ascii _ _ ih => exact Nat.succ_le_succ ih
  | run _ _ _ shorter _ ih =>
    rw [List.length_append, List.length_append]
    omega

theorem alike_nil {bs' : List UInt8} (alike : Alike [] bs') : bs' = [] := by
  generalize empty : ([] : List UInt8) = bs at alike
  cases alike with
  | nil => rfl
  | ascii => cases empty
  | run nonempty => exact absurd (List.append_eq_nil_iff.mp empty.symm).1 nonempty

theorem alike_cons {b : UInt8} {bs bs' : List UInt8} (narrow : b.toNat < 128) (alike : Alike (b :: bs) bs') :
    ∃ r, bs' = b :: r ∧ Alike bs r := by
  generalize split : b :: bs = cs at alike
  cases alike with
  | nil => cases split
  | ascii _ alike =>
    cases split
    exact ⟨_, rfl, alike⟩
  | @run xs _ _ _ nonempty wide _ _ _ =>
    obtain ⟨x, xs, rfl⟩ := List.exists_cons_of_ne_nil nonempty
    rw [List.cons_append] at split
    obtain ⟨rfl, -⟩ := List.cons.inj split
    have high := wide b (by simp)
    omega

theorem alike_append {p bs bs' : List UInt8} (narrow : Narrow p) (alike : Alike (p ++ bs) bs') :
    ∃ r, bs' = p ++ r ∧ Alike bs r := by
  induction p generalizing bs' with
  | nil => exact ⟨bs', rfl, alike⟩
  | cons b p ih =>
    obtain ⟨r, rfl, later⟩ := alike_cons (narrow b (by simp)) alike
    obtain ⟨r, rfl, last⟩ := ih (fun c member => narrow c (by simp [member])) later
    exact ⟨r, rfl, last⟩

theorem alike_narrow {bs bs' : List UInt8} (alike : Alike bs bs') (narrow : Narrow bs ∨ Narrow bs') : bs' = bs := by
  induction alike with
  | nil => rfl
  | @ascii b bs bs' _ _ ih =>
    rw [ih (narrow.imp (fun narrow c member => narrow c (by simp [member]))
      fun narrow c member => narrow c (by simp [member]))]
  | @run xs bs bs' c nonempty wide high _ _ _ =>
    obtain ⟨x, xs, rfl⟩ := List.exists_cons_of_ne_nil nonempty
    obtain ⟨y, ys, split⟩ := spelled c
    have first := wide x (by simp)
    have first' := char_wide high y (by simp [split])
    rcases narrow with narrow | narrow
    · have low := narrow x (by simp)
      omega
    · have low := narrow y (by simp [split])
      omega

theorem alike_encode {bs bs' : List UInt8} (alike : Alike bs bs') : ∃ s, bs' = encode s := by
  induction alike with
  | nil => exact ⟨"", rfl⟩
  | @ascii b _ _ narrow _ ih =>
    obtain ⟨s, rfl⟩ := ih
    refine ⟨String.ofList (Char.ofNat b.toNat :: s.toList), ?_⟩
    rw [encode_ofList, List.flatMap_cons, (Sequence.one narrow).char.2]
    rfl
  | @run _ _ _ c _ _ _ _ _ ih =>
    obtain ⟨s, rfl⟩ := ih
    refine ⟨String.ofList (c :: s.toList), ?_⟩
    rw [encode_ofList, List.flatMap_cons]
    rfl

section
variable {p : UInt8 → Bool} (ascii : ∀ b, p b = true → b.toNat < 128)
include ascii

theorem dropWhile_wide {xs : List UInt8} (nonempty : xs ≠ []) (wide : Wide xs) (bs : List UInt8) :
    (xs ++ bs).dropWhile p = xs ++ bs ∧ (xs ++ bs).takeWhile p = [] := by
  obtain ⟨x, xs, rfl⟩ := List.exists_cons_of_ne_nil nonempty
  have high := wide x (by simp)
  have other : ¬p x = true := fun holds => absurd (ascii x holds) (by omega)
  rw [List.cons_append, List.dropWhile_cons, List.takeWhile_cons, if_neg other, if_neg other]
  exact ⟨rfl, rfl⟩

theorem alike_dropWhile {bs bs' : List UInt8} (alike : Alike bs bs') :
    Alike (bs.dropWhile p) (bs'.dropWhile p) ∧ bs.takeWhile p = bs'.takeWhile p := by
  induction alike with
  | nil => exact ⟨.nil, rfl⟩
  | @ascii b bs bs' narrow alike ih =>
    rw [List.dropWhile_cons, List.dropWhile_cons, List.takeWhile_cons, List.takeWhile_cons]
    split
    · exact ⟨ih.1, congrArg (b :: ·) ih.2⟩
    · exact ⟨.ascii narrow alike, rfl⟩
  | run nonempty wide high shorter alike _ =>
    rw [(dropWhile_wide ascii nonempty wide _).1, (dropWhile_wide ascii nonempty wide _).2,
      (dropWhile_wide ascii (char_nonempty _) (char_wide high) _).1,
      (dropWhile_wide ascii (char_nonempty _) (char_wide high) _).2]
    exact ⟨.run nonempty wide high shorter alike, rfl⟩

end

end CampaignSettlement.Text.Utf8
