import CampaignSettlement.Proofs.Json.MendedValues

/-!
Records of mended bytes. A record whose members have names within ASCII, and values that mending leaves as they are, is
read off mended bytes as it was off the bytes themselves.
-/
namespace CampaignSettlement.Json

open Text.Utf8 (Alike Narrow alike_length alike_nil encode)

/-- What `r` reads, it reads off mended bytes as well. -/
def CarriesValue {α : Type} (r : Reader α) : Prop :=
  ∀ {bs bs' a rest}, Alike bs bs' → r bs = .ok (a, rest) → ∃ rest', r bs' = .ok (a, rest') ∧ Alike rest rest'

namespace Reader

theorem integer_eq_ok {r : Number.Range} {name : String} {bs rest : List UInt8} {i : Int} :
    integer r name bs = .ok (i, rest) ↔ ∃ b s, skipBlanks bs = b :: s ∧ (b == 45 || isDigit b) = true ∧
      number (b :: s) = .ok (.integer i, rest) ∧ r.holds i = true := by
  rw [integer]
  split
  · rename_i none
    simp [none]
  · rename_i b s next
    constructor
    · intro read
      split at read
      case isTrue start =>
        refine ⟨b, s, next, start, ?_⟩
        split at read
        · cases read
        · rename_i j after found
          split at read
          case isTrue holds =>
            cases read
            exact ⟨found, holds⟩
          case isFalse => cases read
        · cases read
      case isFalse => cases read
    · rintro ⟨c, t, next', start, found, holds⟩
      obtain ⟨rfl, rfl⟩ := List.cons.inj (next.symm.trans next')
      rw [if_pos start, found]
      exact if_pos holds

theorem carries_integer (r : Number.Range) (name : String) : CarriesValue (integer r name) := by
  intro bs bs' i rest alike read
  obtain ⟨b, s, next, start, found, holds⟩ := integer_eq_ok.mp read
  have narrow : b.toNat < 128 := by
    rcases Bool.or_eq_true_iff.mp start with sign | digit
    · exact eq_of_beq sign ▸ by decide
    · exact isDigit_ascii b digit
  obtain ⟨s', next', later⟩ := alike_next alike next narrow
  obtain ⟨rest', found', ends⟩ := carries_number (.ascii narrow later) found
  exact ⟨rest', integer_eq_ok.mpr ⟨b, s', next', start, found', holds⟩, ends⟩

theorem endList_eq_ok {bs rest : List UInt8} : endList bs = .ok rest ↔ skipBlanks bs = 93 :: rest := by
  rw [endList]
  split
  · rename_i none
    simp [none]
  · rename_i b r next
    rw [next, List.cons.injEq]
    split
    case isTrue bracket => simp [eq_of_beq bracket]
    case isFalse other =>
      have never : ¬(b = 93 ∧ r = rest) := fun both => other (by simp [both.1])
      simp only [never, iff_false]
      split
      · split <;> simp
      · simp

theorem carries_endList : Carries endList := by
  intro bs bs' rest alike read
  obtain ⟨rest', next, ends⟩ := alike_next alike (endList_eq_ok.mp read) (by decide)
  exact ⟨rest', endList_eq_ok.mpr next, ends⟩

theorem nextElement_eq_none {first : Bool} {bs : List UInt8} :
    nextElement first bs = .ok none ↔ ∃ r, skipBlanks bs = 93 :: r := by
  rw [nextElement]
  cases next : skipBlanks bs with
  | nil => simp
  | cons b r =>
    dsimp only
    split
    case isTrue bracket => simp [eq_of_beq bracket]
    case isFalse other =>
      have never : ¬∃ s, b :: r = 93 :: s := fun ⟨s, eq⟩ => other (by simp [(List.cons.inj eq).1])
      simp only [never, iff_false]
      split
      · simp
      · split
        · split
          · simp
          · split <;> simp
        · simp

theorem nextElement_eq_some {first : Bool} {bs rest : List UInt8} :
    nextElement first bs = .ok (some rest) ↔ (∃ c s, rest = c :: s ∧ c ≠ 93) ∧
      ((first = true ∧ skipBlanks bs = rest) ∨
        (first = false ∧ ∃ r, skipBlanks bs = 44 :: r ∧ skipBlanks r = rest)) := by
  rw [nextElement]
  cases next : skipBlanks bs with
  | nil =>
    simp only [reduceCtorEq, false_iff]
    rintro ⟨⟨c, s, rfl, -⟩, ⟨-, empty⟩ | ⟨-, r, empty, -⟩⟩ <;> cases empty
  | cons b r =>
    dsimp only
    constructor
    · intro read
      split at read
      case isTrue => cases read
      case isFalse unclosed =>
        split at read
        case isTrue beginning =>
          cases read
          exact ⟨⟨b, r, rfl, by simpa using unclosed⟩, .inl ⟨beginning, rfl⟩⟩
        case isFalse later =>
          split at read
          case isTrue comma =>
            split at read
            · cases read
            · rename_i c s after
              split at read
              case isTrue => cases read
              case isFalse more =>
                cases read
                exact ⟨⟨c, s, rfl, by simpa using more⟩,
                  .inr ⟨by simpa using later, r, by rw [eq_of_beq comma], after⟩⟩
          case isFalse => cases read
    · rintro ⟨⟨c, s, rfl, more⟩, ⟨rfl, eq⟩ | ⟨rfl, r', eq, after⟩⟩
      · obtain ⟨rfl, rfl⟩ := List.cons.inj eq
        simp [more]
      · obtain ⟨rfl, rfl⟩ := List.cons.inj eq
        simp [after, more]

theorem carries_nextElement {first : Bool} {bs bs' : List UInt8} {o : Option (List UInt8)} (alike : Alike bs bs')
    (read : nextElement first bs = .ok o) : ∃ o', nextElement first bs' = .ok o' ∧ Option.Rel Alike o o' := by
  -- the first byte of an element may lie outside ASCII; it is no bracket in either
  have element : ∀ {rest rest' : List UInt8}, Alike rest rest' → (∃ c s, rest = c :: s ∧ c ≠ 93) →
      ∃ c s, rest' = c :: s ∧ c ≠ 93 := by
    rintro _ rest' alike ⟨c, s, rfl, more⟩
    rcases alike_head alike with ⟨s', rfl, -⟩ | ⟨-, y, s', rfl, wide⟩
    · exact ⟨c, s', rfl, more⟩
    · refine ⟨y, s', rfl, ?_⟩
      rintro rfl
      simp at wide
  cases o with
  | none =>
    obtain ⟨r, next⟩ := nextElement_eq_none.mp read
    obtain ⟨r', next', -⟩ := alike_next alike next (by decide)
    exact ⟨none, nextElement_eq_none.mpr ⟨r', next'⟩, .none⟩
  | some rest =>
    obtain ⟨stands, ⟨beginning, rfl⟩ | ⟨later, r, comma, rfl⟩⟩ := nextElement_eq_some.mp read
    · have after := alike_skipBlanks alike
      exact ⟨some _, nextElement_eq_some.mpr ⟨element after stands, .inl ⟨beginning, rfl⟩⟩, .some after⟩
    · obtain ⟨r', comma', alike'⟩ := alike_next alike comma (by decide)
      have after := alike_skipBlanks alike'
      exact ⟨some _, nextElement_eq_some.mpr ⟨element after stands, .inr ⟨later, r', comma', rfl⟩⟩, .some after⟩

end Reader

namespace RecordForm

theorem nextKey_eq_none {first : Bool} {bs : List UInt8} :
    nextKey first bs = .ok none ↔ ∃ r, skipBlanks bs = 125 :: r := by
  rw [nextKey]
  cases next : skipBlanks bs with
  | nil => simp
  | cons b r =>
    dsimp only
    split
    case isTrue bracket => simp [eq_of_beq bracket]
    case isFalse other =>
      have never : ¬∃ s, b :: r = 125 :: s := fun ⟨s, eq⟩ => other (by simp [(List.cons.inj eq).1])
      simp only [never, iff_false]
      repeat' split
      all_goals simp

theorem nextKey_eq_some {first : Bool} {bs rest : List UInt8} :
    nextKey first bs = .ok (some rest) ↔ (first = true ∧ skipBlanks bs = 34 :: rest) ∨
      (first = false ∧ ∃ r, skipBlanks bs = 44 :: r ∧ skipBlanks r = 34 :: rest) := by
  rw [nextKey]
  cases next : skipBlanks bs with
  | nil => simp
  | cons b r =>
    dsimp only
    constructor
    · intro read
      split at read
      case isTrue => cases read
      case isFalse =>
        split at read
        case isTrue beginning =>
          split at read
          case isTrue quote =>
            cases read
            exact .inl ⟨beginning, by rw [eq_of_beq quote]⟩
          case isFalse => cases read
        case isFalse later =>
          split at read
          case isTrue comma =>
            split at read
            · cases read
            · rename_i c s after
              split at read
              case isTrue quote =>
                cases read
                exact .inr ⟨by simpa using later, r, by rw [eq_of_beq comma], by rw [after, eq_of_beq quote]⟩
              case isFalse => split at read <;> cases read
          case isFalse => cases read
    · rintro (⟨rfl, eq⟩ | ⟨rfl, r', eq, after⟩)
      · obtain ⟨rfl, rfl⟩ := List.cons.inj eq
        rfl
      · obtain ⟨rfl, rfl⟩ := List.cons.inj eq
        simp [after]

theorem carries_nextKey {first : Bool} {bs bs' : List UInt8} {o : Option (List UInt8)} (alike : Alike bs bs')
    (read : nextKey first bs = .ok o) : ∃ o', nextKey first bs' = .ok o' ∧ Option.Rel Alike o o' := by
  cases o with
  | none =>
    obtain ⟨r, next⟩ := nextKey_eq_none.mp read
    obtain ⟨r', next', -⟩ := alike_next alike next (by decide)
    exact ⟨none, nextKey_eq_none.mpr ⟨r', next'⟩, .none⟩
  | some rest =>
    rcases nextKey_eq_some.mp read with ⟨beginning, quote⟩ | ⟨later, r, comma, quote⟩
    · obtain ⟨rest', quote', ends⟩ := alike_next alike quote (by decide)
      exact ⟨some rest', nextKey_eq_some.mpr (.inl ⟨beginning, quote'⟩), .some ends⟩
    · obtain ⟨r', comma', alike'⟩ := alike_next alike comma (by decide)
      obtain ⟨rest', quote', ends⟩ := alike_next alike' quote (by decide)
      exact ⟨some rest', nextKey_eq_some.mpr (.inr ⟨later, r', comma', quote'⟩), .some ends⟩

theorem alike_afterClosing {bracket : UInt8} (narrow : bracket.toNat < 128) {bs bs' : List UInt8}
    (alike : Alike bs bs') : Alike (afterClosing bracket bs) (afterClosing bracket bs') := by
  have after := alike_skipBlanks alike
  rw [afterClosing, afterClosing]
  cases next : skipBlanks bs with
  | nil =>
    rw [next] at after
    rw [alike_nil after]
    exact .nil
  | cons b r =>
    rw [next] at after
    by_cases closes : (b == bracket) = true
    · obtain ⟨r', next', ends⟩ := alike_next alike next (eq_of_beq closes ▸ narrow)
      rw [next']
      dsimp only
      rwa [if_pos closes, if_pos closes]
    · have other := alike_head_ne narrow after fun c head => by
        cases head
        simpa using closes
      dsimp only
      rw [if_neg closes]
      cases next' : skipBlanks bs' with
      | nil =>
        rw [next'] at after
        exact after
      | cons y r' =>
        rw [next'] at after other
        dsimp only
        rwa [if_neg (by simpa using other y rfl)]

/-- The names of the members lie within ASCII, and mending leaves their values. -/
structure Plain {σ : Type} (ms : List (Member σ)) : Prop where
  names : ∀ m ∈ ms, Narrow (encode m.name)
  values : ∀ m ∈ ms, ∀ d, CarriesValue (m.read d)

theorem plain_nil {σ : Type} : Plain ([] : List (Member σ)) := ⟨by simp, by simp⟩

theorem plain_cons {σ : Type} {m : Member σ} {ms : List (Member σ)} :
    Plain (m :: ms) ↔ Narrow (encode m.name) ∧ (∀ d, CarriesValue (m.read d)) ∧ Plain ms := by
  constructor
  · rintro ⟨names, values⟩
    exact ⟨names m (by simp), values m (by simp), fun n member => names n (by simp [member]),
      fun n member => values n (by simp [member])⟩
  · rintro ⟨name, value, rest⟩
    exact ⟨List.forall_mem_cons.mpr ⟨name, rest.names⟩, List.forall_mem_cons.mpr ⟨value, rest.values⟩⟩

section
variable {σ : Type} {ms : List (Member σ)}

theorem find_key (plain : Plain ms) {s s' : String}
    (same : ∀ name : String, Narrow (encode name) → (s' = name ↔ s = name)) :
    ms.find? (·.name == s') = ms.find? (·.name == s) := by
  have names := plain.names
  clear plain
  induction ms with
  | nil => rfl
  | cons m ms ih =>
    have here : (m.name == s') = (m.name == s) := by
      rw [Bool.eq_iff_iff, beq_iff_eq, beq_iff_eq, eq_comm, same m.name (names m (by simp)), eq_comm]
    rw [List.find?_cons, List.find?_cons, here, ih fun m member => names m (by simp [member])]

/-- One member at its key: its value is read into the draft, or passed over if the name is not known. -/
inductive Takes (ms : List (Member σ)) (d : σ) : List UInt8 → σ → List UInt8 → Prop
  | known {r after value left : List UInt8} {s : String} {m : Member σ} {e : σ} (key : text r = .ok (s, after))
      (found : ms.find? (·.name == s) = some m) (free : m.filled d = false) (colon : Reader.colon after = .ok value)
      (held : m.read d value = .ok (e, left)) : Takes ms d r e left
  | unknown {r after value left : List UInt8} {s : String} (key : text r = .ok (s, after))
      (found : ms.find? (·.name == s) = none) (colon : Reader.colon after = .ok value)
      (passed : skip value = .ok left) : Takes ms d r d left

theorem readMembers_eq_ok {fuel : Nat} {first : Bool} {d d' : σ} {bs rest : List UInt8} :
    readMembers ms (fuel + 1) first d bs = .ok (d', rest) ↔
      (nextKey first bs = .ok none ∧ d = d' ∧ bs = rest) ∨
      ∃ r e left, nextKey first bs = .ok (some r) ∧ Takes ms d r e left ∧
        readMembers ms fuel false e left = .ok (d', rest) := by
  rw [readMembers]
  constructor
  · intro read
    split at read
    · cases read
    · rename_i ends
      cases read
      exact .inl ⟨ends, rfl, rfl⟩
    · rename_i r next
      split at read
      · cases read
      · rename_i s after key
        split at read
        · rename_i m found
          split at read
          case isTrue => cases read
          case isFalse free =>
            split at read
            · cases read
            · rename_i value colon
              split at read
              · cases read
              · rename_i e left held
                exact .inr ⟨r, e, left, next, .known key found (by simpa using free) colon held, read⟩
        · rename_i found
          split at read
          · cases read
          · rename_i value colon
            split at read
            · cases read
            · rename_i left passed
              exact .inr ⟨r, d, left, next, .unknown key found colon passed, read⟩
  · rintro (⟨ends, rfl, rfl⟩ | ⟨r, e, left, next, takes, read⟩)
    · rw [ends]
    · cases takes with
      | known key found free colon held => simpa [next, key, found, free, colon, held] using read
      | unknown key found colon passed => simpa [next, key, found, colon, passed] using read

theorem carries_takes (plain : Plain ms) {d e : σ} {r r' left : List UInt8} (alike : Alike r r')
    (takes : Takes ms d r e left) : ∃ left', Takes ms d r' e left' ∧ Alike left left' := by
  cases takes with
  | known key found free colon held =>
    obtain ⟨s', after', key', alike, same⟩ := carries_text alike key
    obtain ⟨value', colon', alike⟩ := carries_colon alike colon
    obtain ⟨left', held', ends⟩ := plain.values _ (List.mem_of_find?_eq_some found) d alike held
    exact ⟨left', .known key' ((find_key plain same).trans found) free colon' held', ends⟩
  | unknown key found colon passed =>
    obtain ⟨s', after', key', alike, same⟩ := carries_text alike key
    obtain ⟨value', colon', alike⟩ := carries_colon alike colon
    obtain ⟨left', passed', ends⟩ := carries_skip alike passed
    exact ⟨left', .unknown key' ((find_key plain same).trans found) colon' passed', ends⟩

theorem carries_readMembers (plain : Plain ms) {fuel fuel' : Nat} (enough : fuel ≤ fuel') {first : Bool} {d d' : σ}
    {bs bs' rest : List UInt8} (alike : Alike bs bs') (read : readMembers ms fuel first d bs = .ok (d', rest)) :
    ∃ rest', readMembers ms fuel' first d bs' = .ok (d', rest') ∧ Alike rest rest' := by
  induction fuel generalizing fuel' first d bs bs' with
  | zero => cases read
  | succ fuel ih =>
    obtain ⟨fuel', rfl⟩ := Nat.exists_eq_succ_of_ne_zero (n := fuel') (by omega)
    rcases readMembers_eq_ok.mp read with ⟨ends, rfl, rfl⟩ | ⟨r, e, left, next, takes, read⟩
    · obtain ⟨_, ends', closed⟩ := carries_nextKey alike ends
      cases closed
      exact ⟨bs', readMembers_eq_ok.mpr (.inl ⟨ends', rfl, rfl⟩), alike⟩
    · obtain ⟨_, next', opened⟩ := carries_nextKey alike next
      cases opened with
      | some later =>
        obtain ⟨left', takes', alike'⟩ := carries_takes plain later takes
        obtain ⟨rest', read', last⟩ := ih (Nat.le_of_succ_le_succ enough) alike' read
        exact ⟨rest', readMembers_eq_ok.mpr (.inr ⟨_, e, left', next', takes', read'⟩), last⟩

end

theorem carries_readInOrder {α : Type} {form : RecordForm α} {ms : List (Member form.Draft)} (plain : Plain ms)
    (i : Nat) {d d' : form.Draft} {bs bs' rest : List UInt8} (alike : Alike bs bs')
    (read : readInOrder form ms i d bs = .ok (d', rest)) :
    ∃ rest', readInOrder form ms i d bs' = .ok (d', rest') ∧ Alike rest rest' := by
  induction ms generalizing i d bs bs' with
  | nil =>
    cases read
    exact ⟨bs', rfl, alike⟩
  | cons m ms ih =>
    obtain ⟨-, value, others⟩ := plain_cons.mp plain
    rw [readInOrder] at read ⊢
    cases next : Reader.nextElement (i == 0) bs with
    | error f =>
      rw [next] at read
      cases read
    | ok o =>
      obtain ⟨o', next', rel⟩ := Reader.carries_nextElement alike next
      rw [next] at read
      rw [next']
      cases rel with
      | none =>
        dsimp only at read ⊢
        split at read
        case isTrue ends =>
          rw [if_pos ends]
          exact ih others (i + 1) alike read
        case isFalse => cases read
      | @some r r' later =>
        dsimp only at read ⊢
        cases held : m.read d r with
        | error f =>
          rw [held] at read
          cases read
        | ok found =>
          obtain ⟨e, left⟩ := found
          obtain ⟨left', held', ends⟩ := value d later held
          rw [held] at read
          rw [held']
          exact ih others (i + 1) ends read

theorem readInOrder_eq_ok {α : Type} {form : RecordForm α} {m : Member form.Draft} {ms : List (Member form.Draft)}
    (needed : m.mayEnd = false) {i : Nat} {d : form.Draft} {bs : List UInt8} {x : form.Draft × List UInt8} :
    readInOrder form (m :: ms) i d bs = .ok x ↔ ∃ r e left, Reader.nextElement (i == 0) bs = .ok (some r) ∧
      m.read d r = .ok (e, left) ∧ readInOrder form ms (i + 1) e left = .ok x := by
  rw [readInOrder]
  cases Reader.nextElement (i == 0) bs with
  | error f => simp
  | ok o =>
    cases o with
    | none => simp [needed]
    | some r =>
      cases held : m.read d r with
      | error f => simp [held]
      | ok found =>
        obtain ⟨e, left⟩ := found
        simp [held]

theorem reader_eq_ok {α : Type} {form : RecordForm α} {bs rest : List UInt8} {a : α} :
    form.reader bs = .ok (a, rest) ↔
      (∃ r d after, skipBlanks bs = 123 :: r ∧
        readMembers form.members (r.length + 1) true form.empty r = .ok (d, after) ∧
        form.finish d = .ok a ∧ afterClosing 125 after = rest) ∨
      (∃ r d after, skipBlanks bs = 91 :: r ∧ readInOrder form form.members 0 form.empty r = .ok (d, after) ∧
        form.finish d = .ok a ∧ Reader.endList after = .ok rest) := by
  rw [reader]
  cases next : skipBlanks bs with
  | nil => simp
  | cons b r =>
    dsimp only
    by_cases object : (b == 123) = true
    · rw [if_pos object]
      obtain rfl := eq_of_beq object
      cases members : readMembers form.members (r.length + 1) true form.empty r with
      | error f => simp [members]
      | ok found =>
        obtain ⟨d, after⟩ := found
        cases finished : form.finish d <;> simp [members, finished]
    · rw [if_neg object]
      by_cases list : (b == 91) = true
      · rw [if_pos list]
        obtain rfl := eq_of_beq list
        cases members : readInOrder form form.members 0 form.empty r with
        | error f => simp [members]
        | ok found =>
          obtain ⟨d, after⟩ := found
          dsimp only
          cases ends : Reader.endList after with
          | error f => simp [members, ends]
          | ok left => cases finished : form.finish d <;> simp [members, ends, finished]
      · rw [if_neg list]
        simp only [beq_iff_eq] at object list
        simp [object, list]

theorem carries_reader {α : Type} {form : RecordForm α} (plain : Plain form.members) : CarriesValue form.reader := by
  intro bs bs' a rest alike read
  rcases reader_eq_ok.mp read with ⟨r, d, after, next, members, finished, rfl⟩ |
    ⟨r, d, after, next, members, finished, ends⟩
  · obtain ⟨r', next', later⟩ := alike_next alike next (by decide)
    obtain ⟨after', members', left⟩ :=
      carries_readMembers plain (Nat.succ_le_succ (alike_length later)) later members
    exact ⟨_, reader_eq_ok.mpr (.inl ⟨r', d, after', next', members', finished, rfl⟩),
      alike_afterClosing (by decide) left⟩
  · obtain ⟨r', next', later⟩ := alike_next alike next (by decide)
    obtain ⟨after', members', left⟩ := carries_readInOrder plain 0 later members
    obtain ⟨rest', ends', last⟩ := Reader.carries_endList left ends
    exact ⟨rest', reader_eq_ok.mpr (.inr ⟨r', d, after', next', members', finished, ends'⟩), last⟩

end RecordForm

theorem carries_document {α : Type} {r : Reader α} (carries : CarriesValue r) {bs bs' : List UInt8} {a : α}
    (alike : Alike bs bs') (read : document r bs = .ok a) : document r bs' = .ok a := by
  rw [document] at read ⊢
  cases value : r bs with
  | error f =>
    rw [value] at read
    cases read
  | ok found =>
    obtain ⟨b, rest⟩ := found
    obtain ⟨rest', value', ends⟩ := carries alike value
    have after := alike_skipBlanks ends
    rw [value] at read
    rw [value']
    dsimp only at read ⊢
    split at read
    case h_1 none =>
      rw [none] at after
      rw [alike_nil after]
      exact read
    case h_2 => cases read

end CampaignSettlement.Json
