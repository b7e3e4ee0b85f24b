import CampaignSettlement.Proofs.Json.Numerals

/-!
Readers against the values that are written for them. A reader reads a value back if it takes exactly the bytes of that
value, whatever may stand after it; lists and records inherit this from their parts.
-/
namespace CampaignSettlement.Json

open Grammar (isBlank_of_digit skipBlanks_cons)
open Text.Utf8 (encode encode_ofList)

def written (v : Value) : List UInt8 := bytes v.chars

theorem encode_render (v : Value) : encode v.render = written v := by
  rw [Value.render, encode_ofList]
  rfl

def Reads {α : Type} (r : Reader α) (v : Value) (a : α) : Prop :=
  ∀ rest, Stops rest → r (written v ++ rest) = .ok (a, rest)

def Opens (v : Value) : Prop := ∃ b r, written v = b :: r ∧ isBlank b = false ∧ b ≠ 93 ∧ b ≠ 110

theorem document_written {α : Type} {r : Reader α} {v : Value} {a : α} (reads : Reads r v a) :
    document r (encode v.render) = .ok a := by
  have read := reads [] trivial
  rw [List.append_nil] at read
  rw [encode_render, document, read]
  rfl

/-! Values without parts. -/

theorem reads_int64 {i : Int} (low : -2 ^ 63 ≤ i) (high : i < 2 ^ 63) : Reads .int64 (.int i) i := fun _ stops =>
  Reader.int64_written low high stops

theorem reads_count {n : Nat} (fits : n < 2 ^ 64) : Reads .count (.nat n) n := fun _ stops =>
  Reader.count_written fits stops

theorem written_str (s : String) (rest : List UInt8) :
    written (.str s) ++ rest = 34 :: (bytes (s.toList.flatMap escaped) ++ 34 :: rest) := by
  rw [written, Value.chars, bytes_quote, List.cons_append, List.append_assoc]
  rfl

theorem opens_str (s : String) : Opens (.str s) := ⟨34, _, bytes_quote s, rfl, by decide, by decide⟩

theorem opens_list {α : Type} (f : α → Value) (as : List α) : Opens (.list f as) :=
  ⟨91, _, rfl, rfl, by decide, by decide⟩

theorem opens_int (i : Int) : Opens (.int i) := by
  cases i with
  | ofNat n =>
    obtain ⟨b, r, cut, digit⟩ := bytes_toDigits n
    refine ⟨b, r, by rw [written, Value.chars, toList_toString_nat, cut], isBlank_of_digit digit, ?_, ?_⟩
    · rintro rfl
      cases digit
    · rintro rfl
      cases digit
  | negSucc n =>
    exact ⟨45, _, by rw [written, Value.chars, toList_toString_neg]; rfl, rfl, by decide, by decide⟩

theorem reads_textAs {α : Type} (expected : String) {read : String → Except Cause α} {s : String} {a : α}
    (meaning : read s = .ok a) : Reads (.textAs expected read) (.str s) a := by
  intro rest _
  rw [written_str, Reader.textAs, skipBlanks_cons rfl]
  dsimp only
  rw [if_pos (beq_self_eq_true _), text_quoted]
  dsimp only
  rw [meaning]

theorem reads_string (s : String) : Reads .string (.str s) s := reads_textAs "a string" rfl

theorem reads_variant {α : Type} {known : List (String × α)} {s : String} {a : α} (named : known.lookup s = some a) :
    Reads (.variant known) (.str s) a := by
  intro rest stops
  rw [written_str, Reader.variant, skipBlanks_cons rfl]
  dsimp only
  rw [if_pos (beq_self_eq_true _), ← written_str]
  exact reads_textAs _ (by rw [named]) rest stops

theorem reads_option {α : Type} {r : Reader α} {v : Value} {a : α} (opens : Opens v) (reads : Reads r v a) :
    Reads (.option r) v (some a) := by
  intro rest stops
  have read := reads rest stops
  obtain ⟨b, bs, start, notBlank, -, notNull⟩ := opens
  rw [start, List.cons_append] at read ⊢
  rw [Reader.option, skipBlanks_cons notBlank]
  split
  · rename_i eq
    exact absurd (List.cons.inj eq).1 notNull
  · rw [read]
    rfl

/-! Lists. -/

theorem joined_cons (sep : Char) (p : List Char) (ps : List (List Char)) :
    joined sep (p :: ps) = p ++ ps.flatMap (sep :: ·) := by
  induction ps generalizing p with
  | nil => simp [joined]
  | cons q ps ih =>
    change p ++ sep :: joined sep (q :: ps) = _
    rw [ih q, List.flatMap_cons, List.cons_append]

theorem bytes_flatMap (ps : List (List Char)) :
    bytes (ps.flatMap (',' :: ·)) = ps.flatMap fun p => 44 :: bytes p := by
  induction ps with
  | nil => rfl
  | cons p ps ih =>
    rw [List.flatMap_cons, bytes_append, ih, List.flatMap_cons]
    rfl

theorem itemChars_map {α : Type} (f : α → Value) (as : List α) :
    itemChars (as.map f) = as.map fun a => (f a).chars := by
  induction as with
  | nil => rfl
  | cons a as ih => rw [List.map_cons, itemChars, ih, List.map_cons]

theorem nextElement_comma {v : Value} (opens : Opens v) (rest : List UInt8) :
    Reader.nextElement false (44 :: (written v ++ rest)) = .ok (some (written v ++ rest)) := by
  obtain ⟨b, bs, start, notBlank, notEnd, -⟩ := opens
  rw [start, Reader.nextElement, skipBlanks_cons rfl]
  dsimp only [List.cons_append]
  rw [skipBlanks_cons notBlank]
  simp [notEnd]

theorem nextElement_first {v : Value} (opens : Opens v) (rest : List UInt8) :
    Reader.nextElement true (written v ++ rest) = .ok (some (written v ++ rest)) := by
  obtain ⟨b, bs, start, notBlank, notEnd, -⟩ := opens
  rw [start, List.cons_append, Reader.nextElement, skipBlanks_cons notBlank]
  simp [notEnd]

theorem stops_items {α : Type} (f : α → Value) (as : List α) (rest : List UInt8) :
    Stops ((as.flatMap fun a => 44 :: written (f a)) ++ 93 :: rest) := by
  cases as with
  | nil => exact .inr (.inl rfl)
  | cons a as => exact .inl rfl

section
variable {α : Type} {r : Reader α} {f : α → Value}

theorem elements_written {as : List α} (opens : ∀ a ∈ as, Opens (f a)) (reads : ∀ a ∈ as, Reads r (f a) a)
    {fuel : Nat} (enough : as.length < fuel) (i : Nat) (rest : List UInt8) :
    Reader.elements r fuel (i + 1) ((as.flatMap fun a => 44 :: written (f a)) ++ 93 :: rest) =
      .ok (as, 93 :: rest) := by
  induction as generalizing fuel i with
  | nil =>
    obtain ⟨fuel, rfl⟩ := Nat.exists_eq_succ_of_ne_zero (n := fuel) (by omega)
    rfl
  | cons a as ih =>
    obtain ⟨fuel, rfl⟩ := Nat.exists_eq_succ_of_ne_zero (n := fuel) (by omega)
    have head := reads a (by simp) _ (stops_items f as rest)
    have tail := ih (fun a member => opens a (by simp [member])) (fun a member => reads a (by simp [member]))
      (Nat.lt_of_succ_lt_succ enough) (i + 1)
    rw [List.flatMap_cons, List.append_assoc, List.cons_append, Reader.elements,
      show (i + 1 == 0) = false from rfl, nextElement_comma (opens a (by simp))]
    dsimp only
    rw [head]
    dsimp only
    rw [tail]
    rfl

theorem length_items (as : List α) : as.length ≤ (as.flatMap fun a => 44 :: written (f a)).length := by
  induction as with
  | nil => exact Nat.zero_le _
  | cons a as ih =>
    rw [List.flatMap_cons, List.length_append, List.length_cons, List.length_cons]
    omega

theorem reads_list {as : List α} (opens : ∀ a ∈ as, Opens (f a)) (reads : ∀ a ∈ as, Reads r (f a) a) :
    Reads (.list r) (.list f as) as := by
  intro rest _
  have chars : written (.list f as) ++ rest =
      91 :: (bytes (joined ',' (as.map fun a => (f a).chars)) ++ 93 :: rest) := by
    rw [written, Value.list, Value.chars, itemChars_map, bytes_cons, bytes_append, List.append_assoc, List.append_assoc]
    rfl
  rw [chars, Reader.list, skipBlanks_cons rfl]
  dsimp only
  rw [if_pos (beq_self_eq_true _)]
  suffices elements : ∀ fuel, (bytes (joined ',' (as.map fun a => (f a).chars)) ++ 93 :: rest).length < fuel →
      Reader.elements r fuel 0 (bytes (joined ',' (as.map fun a => (f a).chars)) ++ 93 :: rest) =
        .ok (as, 93 :: rest) by
    rw [elements _ (Nat.lt_succ_self _)]
    rfl
  intro fuel enough
  obtain ⟨fuel, rfl⟩ := Nat.exists_eq_succ_of_ne_zero (n := fuel) (by omega)
  cases as with
  | nil => rfl
  | cons a as =>
    have items : bytes (joined ',' ((a :: as).map fun a => (f a).chars)) ++ 93 :: rest =
        written (f a) ++ ((as.flatMap fun a => 44 :: written (f a)) ++ 93 :: rest) := by
      rw [List.map_cons, joined_cons, bytes_append, bytes_flatMap, List.flatMap_map, List.append_assoc]
      rfl
    rw [items] at enough ⊢
    have longer := length_items (f := f) as
    simp only [List.length_append, List.length_cons] at enough
    rw [Reader.elements, show ((0 : Nat) == 0) = true from rfl, nextElement_first (opens a (by simp))]
    dsimp only
    rw [reads a (by simp) _ (stops_items f as rest)]
    dsimp only
    rw [elements_written (fun a member => opens a (by simp [member])) (fun a member => reads a (by simp [member]))
      (by omega)]
    rfl

end

/-! Records. -/

/-- The drafts that come of members written one after another: each has a reader of its own, finds its place empty and
is read back. -/
inductive Fills {σ : Type} (ms : List (Member σ)) : σ → List (String × Value) → σ → Prop
  | nil (d : σ) : Fills ms d [] d
  | cons {d d' d'' : σ} {k : String} {v : Value} {m : Member σ} {pairs : List (String × Value)} :
    ms.find? (·.name == k) = some m → m.filled d = false → Reads (m.read d) v d' → Fills ms d' pairs d'' →
    Fills ms d ((k, v) :: pairs) d''

def memberBytes (p : String × Value) : List UInt8 :=
  bytes (p.1.toList.flatMap escaped) ++ 34 :: 58 :: written p.2

theorem memberChars_eq (pairs : List (String × Value)) :
    memberChars pairs = pairs.map fun p => quote p.1 ++ ':' :: p.2.chars := by
  induction pairs with
  | nil => rfl
  | cons p pairs ih => rw [memberChars, ih, List.map_cons]

theorem bytes_member (p : String × Value) : bytes (quote p.1 ++ ':' :: p.2.chars) = 34 :: memberBytes p := by
  rw [bytes_append, bytes_quote, bytes_cons, List.cons_append, List.append_assoc]
  rfl

theorem stops_members (pairs : List (String × Value)) (rest : List UInt8) :
    Stops ((pairs.flatMap fun p => 44 :: 34 :: memberBytes p) ++ 125 :: rest) := by
  cases pairs with
  | nil => exact .inr (.inr rfl)
  | cons p pairs => exact .inl rfl

namespace RecordForm

section
variable {σ : Type} {ms : List (Member σ)}

theorem readMembers_next {d d' : σ} {p : String × Value} {m : Member σ} (found : ms.find? (·.name == p.1) = some m)
    (free : m.filled d = false) (reads : Reads (m.read d) p.2 d') {first : Bool} {bs rest : List UInt8}
    (key : nextKey first bs = .ok (some (memberBytes p ++ rest))) (stops : Stops rest) (fuel : Nat) :
    readMembers ms (fuel + 1) first d bs = readMembers ms fuel false d' rest := by
  have split : memberBytes p ++ rest = bytes (p.1.toList.flatMap escaped) ++ 34 :: 58 :: (written p.2 ++ rest) := by
    rw [memberBytes, List.append_assoc]
    rfl
  have colon : Reader.colon (58 :: (written p.2 ++ rest)) = .ok (written p.2 ++ rest) := rfl
  rw [readMembers, key]
  dsimp only
  rw [split, text_quoted]
  dsimp only
  rw [found]
  dsimp only
  rw [free, colon]
  dsimp only
  rw [reads rest stops]
  rfl

theorem readMembers_written {d d' : σ} {pairs : List (String × Value)} (fills : Fills ms d pairs d') {fuel : Nat}
    (enough : pairs.length < fuel) (rest : List UInt8) :
    readMembers ms fuel false d ((pairs.flatMap fun p => 44 :: 34 :: memberBytes p) ++ 125 :: rest) =
      .ok (d', 125 :: rest) := by
  induction fills generalizing fuel with
  | nil d =>
    obtain ⟨fuel, rfl⟩ := Nat.exists_eq_succ_of_ne_zero (n := fuel) (by omega)
    rfl
  | @cons d d' d'' k v m pairs found free reads fills ih =>
    obtain ⟨fuel, rfl⟩ := Nat.exists_eq_succ_of_ne_zero (n := fuel) (by omega)
    rw [List.flatMap_cons, List.append_assoc, List.cons_append, List.cons_append,
      readMembers_next (p := (k, v)) found free reads rfl (stops_members pairs rest)]
    exact ih (Nat.lt_of_succ_lt_succ enough)

end

theorem length_members (pairs : List (String × Value)) :
    pairs.length ≤ (pairs.flatMap fun p => 44 :: 34 :: memberBytes p).length := by
  induction pairs with
  | nil => exact Nat.zero_le _
  | cons p pairs ih =>
    rw [List.flatMap_cons, List.length_append, List.length_cons, List.length_cons]
    omega

theorem readMembers_object {σ : Type} {ms : List (Member σ)} {d d' : σ} {pairs : List (String × Value)}
    (fills : Fills ms d pairs d') (rest : List UInt8) {fuel : Nat}
    (enough : (bytes (joined ',' (memberChars pairs)) ++ 125 :: rest).length < fuel) :
    readMembers ms fuel true d (bytes (joined ',' (memberChars pairs)) ++ 125 :: rest) = .ok (d', 125 :: rest) := by
  obtain ⟨fuel, rfl⟩ := Nat.exists_eq_succ_of_ne_zero (n := fuel) (by omega)
  cases fills with
  | nil => rfl
  | @cons _ d' _ k v m pairs found free reads fills =>
    have members : bytes (joined ',' (memberChars ((k, v) :: pairs))) ++ 125 :: rest =
        34 :: (memberBytes (k, v) ++ ((pairs.flatMap fun p => 44 :: 34 :: memberBytes p) ++ 125 :: rest)) := by
      rw [memberChars_eq, List.map_cons, joined_cons, bytes_append, bytes_flatMap, List.flatMap_map, bytes_member,
        List.cons_append, List.cons_append, List.append_assoc]
      simp only [bytes_member]
    have longer := length_members pairs
    rw [members] at enough ⊢
    simp only [List.length_append, List.length_cons] at enough
    rw [readMembers_next (p := (k, v)) found free reads rfl (stops_members pairs rest),
      readMembers_written fills (by omega)]

/-- A record is read back if its members are and they make it up. -/
theorem reads_object {α : Type} {form : RecordForm α} {pairs : List (String × Value)} {d : form.Draft}
    (fills : Fills form.members form.empty pairs d) {a : α} (finished : form.finish d = .ok a) :
    Reads form.reader (.obj pairs) a := by
  intro rest _
  have chars : written (.obj pairs) ++ rest = 123 :: (bytes (joined ',' (memberChars pairs)) ++ 125 :: rest) := by
    rw [written, Value.chars, bytes_cons, bytes_append, List.append_assoc, List.append_assoc]
    rfl
  have closed : afterClosing 125 (125 :: rest) = rest := rfl
  rw [chars, reader, skipBlanks_cons rfl]
  dsimp only
  rw [if_pos (beq_self_eq_true _), readMembers_object fills rest (Nat.lt_succ_self _)]
  dsimp only
  rw [finished, closed]

end RecordForm

end CampaignSettlement.Json
