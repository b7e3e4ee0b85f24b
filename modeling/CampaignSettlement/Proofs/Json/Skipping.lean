import CampaignSettlement.Proofs.Json.Tokens

/-!
What is passed over is a value. A pass has a stack of open frames and no recursion, so it is told from where it stands:
it passes a value, or the rest of the innermost frame, and goes on in the frames around. The other way, a value leads a
pass from its start to its end in at most two steps for each byte.
-/
namespace CampaignSettlement.Json.Grammar

variable {bs r rest : List UInt8} {frame : Frame} {frames : List Frame}

/-! Tokens. -/

theorem word_eq_ok {ls : List UInt8} : word ls bs = .ok rest ↔ bs = ls ++ rest := by
  induction ls generalizing bs with
  | nil => simp [word]
  | cons l ls ih =>
    cases bs with
    | nil => simp [word]
    | cons b bs =>
      rw [word]
      split
      case isTrue same =>
        obtain rfl := eq_of_beq same
        simp [ih]
      case isFalse other =>
        have differ : b ≠ l := fun same => other (by simp [same])
        simp [differ]

theorem nullWord_eq_ok : nullWord bs = .ok rest ↔ bs = 117 :: 108 :: 108 :: rest := word_eq_ok

theorem trueWord_eq_ok : trueWord bs = .ok rest ↔ bs = 114 :: 117 :: 101 :: rest := word_eq_ok

theorem falseWord_eq_ok : falseWord bs = .ok rest ↔ bs = 97 :: 108 :: 115 :: 101 :: rest := word_eq_ok

theorem number_of_skip {b : UInt8} (read : skipUnsigned (b :: r) = .ok rest) :
    Number (b :: r) rest ∧ Number (45 :: b :: r) rest := by
  obtain ⟨ds, s, whole, split, tail⟩ := whole_of_skip read
  obtain ⟨t, fraction, power⟩ := fraction_of_skip tail
  rw [split]
  exact ⟨.plain whole fraction power, .minus whole fraction power⟩

inductive Token (b : UInt8) (r : List UInt8) : Option Frame → List UInt8 → Prop
  | scalar {rest : List UInt8} (scalar : Scalar (b :: r) rest) : Token b r none rest
  | opening {frame : Frame} (same : b = opening frame) : Token b r (some frame) r

theorem token_of_skip {b : UInt8} {opened : Option Frame} (read : skipToken b r = .ok (opened, rest)) :
    Token b r opened rest := by
  have plain {f : Except Fault (List UInt8)} (found : f.map ((none : Option Frame), ·) = .ok (opened, rest))
      (scalar : f = .ok rest → Scalar (b :: r) rest) : Token b r opened rest := by
    obtain ⟨left, found, same⟩ := map_eq_ok.mp found
    cases same
    exact .scalar (scalar found)
  simp only [skipToken] at read
  split at read
  · rename_i null
    obtain rfl := eq_of_beq null
    exact plain read fun word => nullWord_eq_ok.mp word ▸ .null rest
  split at read
  · rename_i yes
    obtain rfl := eq_of_beq yes
    exact plain read fun word => trueWord_eq_ok.mp word ▸ .yes rest
  split at read
  · rename_i no
    obtain rfl := eq_of_beq no
    exact plain read fun word => falseWord_eq_ok.mp word ▸ .no rest
  split at read
  · rename_i sign
    obtain rfl := eq_of_beq sign
    refine plain read fun number => ?_
    cases r with
    | nil => cases number
    | cons b r => exact .number (number_of_skip number).2
  split at read
  · exact plain read fun number => .number (number_of_skip number).1
  split at read
  · rename_i quote
    obtain rfl := eq_of_beq quote
    exact plain read fun text => .text (anyText_of_skip text)
  split at read
  · rename_i list
    have same : b = opening .list := eq_of_beq list
    cases read
    exact .opening same
  split at read
  · rename_i object
    have same : b = opening .object := eq_of_beq object
    cases read
    exact .opening same
  · cases read

theorem skipToken_opening (frame : Frame) (r : List UInt8) :
    skipToken (opening frame) r = .ok (some frame, r) := by
  cases frame <;> rfl

structure Starts (b : UInt8) : Prop where
  blank : isBlank b = false
  bracket : ∀ frame, b ≠ closing frame

theorem starts_of_digit {b : UInt8} (digit : isDigit b = true) : Starts b := by
  refine ⟨isBlank_of_digit digit, ?_⟩
  rintro frame rfl
  cases frame <;> cases digit

theorem starts_of_opening (frame : Frame) : Starts (opening frame) := by
  constructor
  · cases frame <;> rfl
  · intro other
    cases frame <;> cases other <;> decide

theorem skipToken_digit {b : UInt8} (digit : isDigit b = true) (r : List UInt8) :
    skipToken b r = (skipUnsigned (b :: r)).map (none, ·) := by
  have other (c : UInt8) (plain : isDigit c = false) : ¬(b == c) = true := by
    intro same
    rw [← eq_of_beq same, digit] at plain
    cases plain
  simp only [skipToken]
  rw [if_neg (other 110 rfl), if_neg (other 116 rfl), if_neg (other 102 rfl), if_neg (other 45 rfl), if_pos digit]

theorem Scalar.skip (scalar : Scalar bs rest) (ends : Ends rest) :
    ∃ b r, bs = b :: r ∧ Starts b ∧ skipToken b r = .ok (none, rest) := by
  cases scalar with
  | null | yes | no =>
    refine ⟨_, _, rfl, ⟨rfl, fun frame => ?_⟩, rfl⟩
    cases frame <;> decide
  | number number =>
    cases number with
    | plain whole fraction power =>
      have read := skipUnsigned_number whole fraction power ends
      obtain ⟨b, tail, rfl, digit, -⟩ := whole.toDigits.cons
      exact ⟨b, _, rfl, starts_of_digit digit, (skipToken_digit digit _).trans (map_eq_ok.mpr ⟨rest, read, rfl⟩)⟩
    | minus whole fraction power =>
      refine ⟨45, _, rfl, ⟨rfl, fun frame => ?_⟩, map_eq_ok.mpr ⟨rest, ?_, rfl⟩⟩
      · cases frame <;> decide
      · exact skipUnsigned_number whole fraction power ends
  | text text =>
    refine ⟨34, _, rfl, ⟨rfl, fun frame => ?_⟩, map_eq_ok.mpr ⟨rest, text.skip, rfl⟩⟩
    cases frame <;> decide

/-! A pass from its start. -/

theorem label_of_onward {fuel : Nat} (read : onward fuel frame frames bs = .ok rest) :
    ∃ s, Label frame bs s ∧ skipFrom fuel .value (frame :: frames) s = .ok rest := by
  cases frame with
  | list => exact ⟨bs, .element bs, read⟩
  | object =>
    rw [onward] at read
    cases key : skipKey bs with
    | error f =>
      rw [key] at read
      cases read
    | ok s =>
      rw [key] at read
      obtain ⟨t, u, quote, text, colon⟩ := skipKey_eq_ok.mp key
      have quote := (skipBlanks_eq_cons.mp quote).1
      have colon := (skipBlanks_eq_cons.mp (colon_eq_ok.mp colon)).1
      exact ⟨s, .key quote (anyText_of_skip text) colon, read⟩

theorem Blanks.parts (blanks : Blanks bs r) (parts : Stands (.parts frame) r rest) : Stands (.parts frame) bs rest := by
  have label {s t : List UInt8} (label : Label frame r s) (before : Blanks s t) :
      ∃ s', Label frame bs s' ∧ Blanks s' t := by
    cases label with
    | element => exact ⟨bs, .element bs, blanks.trans before⟩
    | key quote text colon => exact ⟨s, .key (blanks.trans quote) text colon, before⟩
  cases parts with
  | last first before value after =>
    obtain ⟨s, first, before⟩ := label first before
    exact .last first before value after
  | comma first before value after later =>
    obtain ⟨s, first, before⟩ := label first before
    exact .comma first before value after later

/-- How the pass that took a value goes on: it is done, or with less fuel in the frames around. -/
def Goes (fuel : Nat) (frames : List Frame) (bs rest : List UInt8) : Prop :=
  frames = [] ∧ bs = rest ∨ ∃ less < fuel, skipFrom less (.inside true) frames bs = .ok rest

theorem Goes.mono {less fuel : Nat} (goes : Goes less frames bs rest) (enough : less ≤ fuel) :
    Goes fuel frames bs rest := by
  rcases goes with done | ⟨n, bound, read⟩
  · exact .inl done
  · exact .inr ⟨n, Nat.lt_of_lt_of_le bound enough, read⟩

/-- What is left of a frame; after a value, a comma comes first. -/
def Left (frame : Frame) (comma : Bool) (bs rest : List UInt8) : Prop :=
  Blanks bs rest ∨ comma = false ∧ Stands (.parts frame) bs rest ∨
    comma = true ∧ ∃ u, Blanks bs (44 :: u) ∧ Stands (.parts frame) u rest

/-- From where it stands, a pass takes a value, or what is left of a frame with its bracket. -/
structure Passing (fuel : Nat) : Prop where
  value : ∀ {frames bs rest}, skipFrom fuel .value frames bs = .ok rest →
    ∃ s t, Blanks bs s ∧ Value s t ∧ Goes fuel frames t rest
  inside : ∀ {comma frame frames bs rest}, skipFrom fuel (.inside comma) (frame :: frames) bs = .ok rest →
    ∃ t, Left frame comma bs (closing frame :: t) ∧ Goes fuel frames t rest

theorem passing_onward {fuel : Nat} (passing : ∀ less ≤ fuel, Passing less)
    (read : onward fuel frame frames bs = .ok rest) :
    ∃ t, Stands (.parts frame) bs (closing frame :: t) ∧ Goes fuel frames t rest := by
  obtain ⟨r, label, read⟩ := label_of_onward read
  obtain ⟨s, t, before, value, goes⟩ := (passing fuel le_rfl).value read
  rcases goes with ⟨impossible, -⟩ | ⟨less, bound, read⟩
  · cases impossible
  obtain ⟨u, left, goes⟩ := (passing less bound.le).inside read
  refine ⟨u, ?_, goes.mono bound.le⟩
  rcases left with after | ⟨impossible, -⟩ | ⟨-, v, after, later⟩
  · exact .last label before value after
  · cases impossible
  · exact .comma label before value after later

theorem passing (fuel : Nat) : Passing fuel := by
  induction fuel using Nat.strongRecOn with
  | ind fuel ih =>
    cases fuel with
    | zero =>
      constructor
      · intro _ _ _ read
        cases read
      · intro _ _ _ _ _ read
        cases read
    | succ fuel =>
      have earlier : ∀ less ≤ fuel, Passing less := fun less bound => ih less (Nat.lt_succ_of_le bound)
      constructor
      · intro frames bs rest read
        rw [skipFrom] at read
        split at read
        · cases read
        rename_i b r next
        refine ⟨b :: r, ?_⟩
        have blanks := (skipBlanks_eq_cons.mp next).1
        split at read
        · cases read
        · rename_i frame after token
          cases token_of_skip token with
          | opening same =>
            subst same
            obtain ⟨t, left, goes⟩ := (earlier fuel le_rfl).inside read
            refine ⟨t, blanks, ?_, goes.mono (Nat.le_succ fuel)⟩
            rcases left with empty | ⟨-, parts⟩ | ⟨impossible, -⟩
            · exact .empty empty
            · exact .framed parts
            · cases impossible
        · rename_i after token
          cases token_of_skip token with
          | scalar scalar =>
            refine ⟨after, blanks, .scalar scalar, ?_⟩
            split at read
            case isTrue outermost =>
              cases read
              exact .inl ⟨List.isEmpty_iff.mp outermost, rfl⟩
            case isFalse => exact .inr ⟨fuel, Nat.lt_succ_self fuel, read⟩
      · intro comma frame frames bs rest read
        rw [skipFrom_inside] at read
        split at read
        · cases read
        rename_i b r next
        have blanks := (skipBlanks_eq_cons.mp next).1
        split at read
        case isTrue separator =>
          obtain ⟨after, same⟩ := Bool.and_eq_true_iff.mp separator
          obtain rfl := eq_of_beq same
          obtain ⟨t, parts, goes⟩ := passing_onward earlier read
          exact ⟨t, .inr (.inr ⟨after, r, blanks, parts⟩), goes.mono (Nat.le_succ fuel)⟩
        case isFalse =>
          split at read
          case isTrue closes =>
            obtain rfl := eq_of_beq closes
            exact ⟨r, .inl blanks, .inr ⟨fuel, Nat.lt_succ_self fuel, read⟩⟩
          case isFalse =>
            split at read
            case isTrue => cases read
            case isFalse first =>
              obtain ⟨t, parts, goes⟩ := passing_onward earlier read
              exact ⟨t, .inr (.inl ⟨by simpa using first, blanks.parts parts⟩), goes.mono (Nat.le_succ fuel)⟩

theorem value_of_skip (read : skip bs = .ok rest) : ∃ s, Blanks bs s ∧ Value s rest := by
  obtain ⟨s, t, blanks, value, goes⟩ := (passing _).value read
  rcases goes with ⟨-, rfl⟩ | ⟨less, -, read⟩
  · exact ⟨s, blanks, value⟩
  · cases less with
    | zero => cases read
    | succ => cases read; exact ⟨s, blanks, value⟩

/-! A value from its end. -/

theorem Blanks.length (blanks : Blanks bs rest) : rest.length ≤ bs.length := by
  obtain ⟨xs, -, rfl⟩ := blanks
  simp

theorem AnyText.length (text : AnyText bs rest) : rest.length < bs.length := by
  induction text with
  | close rest => exact Nat.lt_succ_self _
  | letter known later ih => simp only [List.length_cons] at ih ⊢; omega
  | unit hex later ih =>
    cases hex
    simp only [List.length_cons] at ih ⊢
    omega
  | plain plain later ih => simp only [List.length_cons] at ih ⊢; omega

theorem Fraction.length (fraction : Fraction bs rest) : rest.length ≤ bs.length := by
  cases fraction with
  | none => exact le_rfl
  | point => simp only [List.length_cons, List.length_append]; omega

theorem Power.length (power : Power bs rest) : rest.length ≤ bs.length := by
  cases power with
  | none => exact le_rfl
  | letter => simp only [List.length_cons, List.length_append]; omega

theorem Number.length (number : Number bs rest) : rest.length < bs.length := by
  cases number with
  | plain whole fraction power | minus whole fraction power =>
    have digits := List.length_pos_of_ne_nil whole.nonempty
    have := fraction.length
    have := power.length
    simp only [List.length_cons, List.length_append]
    omega

theorem Scalar.length (scalar : Scalar bs rest) : rest.length < bs.length := by
  cases scalar with
  | null | yes | no => simp only [List.length_cons]; omega
  | number number => exact number.length
  | text text => exact text.length.trans (Nat.lt_succ_self _)

theorem Label.length (label : Label frame bs rest) : rest.length ≤ bs.length := by
  cases label with
  | element => exact le_rfl
  | key quote text colon =>
    have := quote.length
    have := text.length
    have := colon.length
    simp only [List.length_cons] at *
    omega

theorem ends_closing (frame : Frame) (rest : List UInt8) : Ends (closing frame :: rest) := by
  cases frame with
  | list => exact ends_cons (.inr (.inr (.inl rfl))) rest
  | object => exact ends_cons (.inr (.inr (.inr rfl))) rest

theorem ends_comma (rest : List UInt8) : Ends (44 :: rest) := ends_cons (.inr (.inl rfl)) rest

theorem starts_quote : Starts 34 := ⟨rfl, fun frame => by cases frame <;> decide⟩

theorem isBlank_closing (frame : Frame) : isBlank (closing frame) = false := by cases frame <;> rfl

theorem Stands.starts {form : Form} (stands : Stands form bs rest) :
    match form with
    | .value => ∃ b r, bs = b :: r ∧ Starts b
    | .parts _ => ∃ b r, skipBlanks bs = b :: r ∧ Starts b := by
  have labelled {frame : Frame} {bs r s : List UInt8} (label : Label frame bs r) (before : Blanks r s)
      (value : ∃ b t, s = b :: t ∧ Starts b) : ∃ b t, skipBlanks bs = b :: t ∧ Starts b := by
    cases label with
    | element =>
      obtain ⟨b, t, rfl, starts⟩ := value
      exact ⟨b, t, skipBlanks_eq_cons.mpr ⟨before, starts.blank⟩, starts⟩
    | key quote => exact ⟨34, _, skipBlanks_eq_cons.mpr ⟨quote, rfl⟩, starts_quote⟩
  induction stands with
  | scalar scalar =>
    cases scalar with
    | null | yes | no => exact ⟨_, _, rfl, rfl, fun frame => by cases frame <;> decide⟩
    | number number =>
      cases number with
      | plain whole =>
        obtain ⟨b, tail, rfl, digit, -⟩ := whole.toDigits.cons
        exact ⟨b, _, rfl, starts_of_digit digit⟩
      | minus => exact ⟨45, _, rfl, rfl, fun frame => by cases frame <;> decide⟩
    | text => exact ⟨34, _, rfl, starts_quote⟩
  | empty | framed => exact ⟨_, _, rfl, starts_of_opening _⟩
  | last label before value after ih => exact labelled label before ih
  | comma label before value after later ih => exact labelled label before ih

section
variable {fuel : Nat}

theorem Label.onward (label : Label frame bs r) :
    onward fuel frame frames bs = skipFrom fuel .value (frame :: frames) r := by
  cases label with
  | element => rfl
  | key quote text colon =>
    have key := skipKey_eq_ok.mpr ⟨_, _, skipBlanks_eq_cons.mpr ⟨quote, rfl⟩, text.skip,
      colon_eq_ok.mpr (skipBlanks_eq_cons.mpr ⟨colon, rfl⟩)⟩
    rw [Json.onward, key]

theorem Blanks.value (blanks : Blanks bs r) :
    skipFrom (fuel + 1) .value frames bs = skipFrom (fuel + 1) .value frames r := by
  rw [skipFrom, skipFrom, blanks.skip]

theorem Blanks.onward (blanks : Blanks bs r) :
    Json.onward (fuel + 1) frame frames bs = Json.onward (fuel + 1) frame frames r := by
  cases frame with
  | list => exact blanks.value
  | object =>
    rw [Json.onward, Json.onward]
    unfold skipKey
    rw [blanks.skip]

theorem Scalar.passed (scalar : Scalar bs rest) (ends : Ends rest) :
    skipFrom (fuel + 2) .value frames bs = skipFrom (fuel + 1) (.inside true) frames rest := by
  obtain ⟨b, r, rfl, starts, token⟩ := scalar.skip ends
  rw [skipFrom, skipBlanks_cons starts.blank]
  dsimp only
  rw [token]
  cases frames <;> rfl

theorem skipFrom_opening (frame : Frame) (r : List UInt8) :
    skipFrom (fuel + 1) .value frames (opening frame :: r) = skipFrom fuel (.inside false) (frame :: frames) r := by
  rw [skipFrom, skipBlanks_cons (starts_of_opening frame).blank]
  dsimp only
  rw [skipToken_opening]

theorem closing_ne_comma (frame : Frame) : (closing frame == 44) = false := by cases frame <;> rfl

theorem Blanks.closed (blanks : Blanks bs (closing frame :: rest)) (comma : Bool) :
    skipFrom (fuel + 1) (.inside comma) (frame :: frames) bs = skipFrom fuel (.inside true) frames rest := by
  rw [skipFrom_inside, skipBlanks_eq_cons.mpr ⟨blanks, isBlank_closing frame⟩]
  dsimp only
  rw [if_neg (by simp [closing_ne_comma]), if_pos (beq_self_eq_true _)]

theorem Blanks.separated (blanks : Blanks bs (44 :: rest)) :
    skipFrom (fuel + 1) (.inside true) (frame :: frames) bs = Json.onward fuel frame frames rest := by
  rw [skipFrom_inside, skipBlanks_eq_cons.mpr ⟨blanks, rfl⟩]
  rfl

theorem Stands.entered (parts : Stands (.parts frame) bs rest) :
    skipFrom (fuel + 2) (.inside false) (frame :: frames) bs = Json.onward (fuel + 1) frame frames bs := by
  obtain ⟨b, r, next, starts⟩ := parts.starts
  rw [skipFrom_inside, (skipBlanks_eq_cons.mp next).1.onward, next]
  dsimp only
  rw [if_neg (by simp), if_neg (by simpa using starts.bracket frame), if_neg (by simp)]

end

/-- A value leads a pass to its end, and so do the parts of a frame with its bracket, in `steps` steps. -/
theorem Stands.passed {form : Form} (stands : Stands form bs rest) :
    match form with
    | .value => Ends rest → ∃ steps, steps + 2 * rest.length ≤ 2 * bs.length ∧
        ∀ fuel frames, skipFrom (steps + fuel + 1) .value frames bs = skipFrom (fuel + 1) (.inside true) frames rest
    | .parts frame => ∀ r, rest = closing frame :: r → ∃ steps, steps + 2 * rest.length ≤ 2 * bs.length + 1 ∧
        ∀ fuel frames, onward (steps + fuel + 1) frame frames bs = skipFrom (fuel + 1) (.inside true) frames r := by
  induction stands with
  | @scalar bs rest scalar =>
    intro ends
    have shorter := scalar.length
    refine ⟨1, by omega, fun fuel frames => ?_⟩
    rw [Nat.add_comm 1 fuel]
    exact scalar.passed ends
  | @empty frame bs rest blanks =>
    intro _
    have shorter := blanks.length
    simp only [List.length_cons] at shorter ⊢
    refine ⟨2, by omega, fun fuel frames => ?_⟩
    rw [Nat.add_comm 2 fuel, skipFrom_opening, blanks.closed false]
  | @framed frame bs rest parts ih =>
    intro _
    obtain ⟨steps, bound, onward⟩ := ih rest rfl
    simp only [List.length_cons] at bound ⊢
    refine ⟨steps + 2, by omega, fun fuel frames => ?_⟩
    rw [← onward, skipFrom_opening, show steps + 2 + fuel = steps + fuel + 2 by omega, parts.entered]
  | @last frame bs r s t rest label before value after ih =>
    rintro u rfl
    obtain ⟨steps, bound, passed⟩ := ih (after.ends (ends_closing frame u))
    have := label.length
    have := before.length
    have := after.length
    refine ⟨steps + 1, by omega, fun fuel frames => ?_⟩
    rw [label.onward, before.value, show steps + 1 + fuel + 1 = steps + (fuel + 1) + 1 by omega, passed,
      after.closed true]
  | @comma frame bs r s t u rest label before value after later ih ih' =>
    rintro v rfl
    obtain ⟨steps, bound, passed⟩ := ih (after.ends (ends_comma u))
    obtain ⟨steps', bound', onward⟩ := ih' v rfl
    have := label.length
    have := before.length
    have shorter := after.length
    simp only [List.length_cons] at shorter bound'
    refine ⟨steps + 1 + steps', by simp only [List.length_cons]; omega, fun fuel frames => ?_⟩
    rw [← onward, label.onward, before.value,
      show steps + 1 + steps' + fuel + 1 = steps + (steps' + fuel + 1) + 1 by omega, passed, after.separated]

theorem skip_of_value (blanks : Blanks bs r) (value : Value r rest) (ends : Ends rest) : skip bs = .ok rest := by
  obtain ⟨steps, bound, passed⟩ := value.passed ends
  have shorter := blanks.length
  rw [skip, blanks.value, show 2 * bs.length + 1 = steps + (2 * bs.length - steps) + 1 by omega, passed]
  rfl

theorem Escape.length {c : Char} (escape : Escape bs c rest) : rest.length < bs.length := by
  cases escape with
  | letter => exact Nat.lt_succ_self _
  | unit hex =>
    cases hex
    simp only [List.length_cons]
    omega
  | pair hex _ hex' =>
    cases hex
    cases hex'
    simp only [List.length_cons]
    omega

theorem Text.length {s : String} (text : Text bs s rest) : rest.length < bs.length := by
  rw [Text] at text
  generalize Text.Utf8.encode s = t at text
  induction text with
  | close rest => exact Nat.lt_succ_self _
  | escape escape later ih =>
    have := escape.length
    simp only [List.length_cons]
    omega
  | plain plain later ih => simp only [List.length_cons] at ih ⊢; omega

theorem Holds.length {c : Content} (holds : Holds c bs rest) (ends : Ends rest) : rest.length ≤ bs.length := by
  cases holds with
  | integer integer => exact integer.number.length.le
  | value value =>
    obtain ⟨steps, bound, -⟩ := value.passed ends
    omega

theorem Pair.length {k : String} {c : Content} (pair : Pair k c bs rest) (ends : Ends rest) :
    rest.length < bs.length := by
  cases pair with
  | colon quote key colon before value after =>
    have := quote.length
    have := key.length
    have := colon.length
    have := before.length
    have := value.length (after.ends ends)
    have := after.length
    simp only [List.length_cons] at *
    omega

theorem Pairs.length {ps : List (String × Content)} (pairs : Pairs ps bs rest) (ends : Ends rest) :
    ps.length + rest.length ≤ bs.length := by
  induction pairs with
  | last pair =>
    have := pair.length ends
    simp only [List.length_cons, List.length_nil]
    omega
  | comma pair later ih =>
    have := pair.length (ends_comma _)
    have := ih ends
    simp only [List.length_cons] at *
    omega

end CampaignSettlement.Json.Grammar
