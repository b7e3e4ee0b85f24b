import CampaignSettlement.Proofs.Json.Numerals
import CampaignSettlement.Proofs.Json.Skipping
import CampaignSettlement.Proofs.Wire.Replay

/-!
The payloads that are accepted. An event is an object in which each of its two keys stands once, with an integer of 64
bits, among members with other keys; or it is the list of the two integers. All other payloads are refused.
-/
namespace CampaignSettlement.Wire

open Json (Reader RecordForm colon_eq_ok map_eq_ok skipBlanks)
open Json.Grammar

/-- The key stands once among the pairs, and its value is the integer. -/
def Once (ps : List (String × Content)) (k : String) (i : Int) : Prop := ps.filter (·.1 == k) = [(k, .integer i)]

inductive Event (e : Participation) : List UInt8 → List UInt8 → Prop
  | object {ps : List (String × Content)} {bs rest : List UInt8} (object : Object ps bs rest)
      (campaign : Once ps "campaignId" e.campaign) (user : Once ps "userId" e.user) : Event e bs rest
  | list {bs rest : List UInt8} (two : Two e.campaign e.user bs rest) : Event e bs rest

/-- The payload `bs` is the event `e`, with nothing but blanks around it. -/
structure Tells (bs : List UInt8) (e : Participation) : Prop where
  event : ∃ r s, Blanks bs r ∧ Event e r s ∧ Blanks s []
  campaign : Number.int64.holds e.campaign = true
  user : Number.int64.holds e.user = true

namespace Participation

/-- What one pair makes of a draft. -/
inductive Draws (d : Draft) : String → Content → Draft → Prop
  | campaign {i : Int} (free : d.campaign = none) (holds : Number.int64.holds i = true) :
      Draws d "campaignId" (.integer i) { d with campaign := some i }
  | user {i : Int} (free : d.user = none) (holds : Number.int64.holds i = true) :
      Draws d "userId" (.integer i) { d with user := some i }
  | other {k : String} {c : Content} (campaign : k ≠ "campaignId") (user : k ≠ "userId") : Draws d k c d

theorem find_campaign : form.members.find? (·.name == "campaignId") =
    some (.place "campaignId" Draft.campaign (fun d a => { d with campaign := some a }) .int64) := rfl

theorem find_user : form.members.find? (·.name == "userId") =
    some (.place "userId" Draft.user (fun d a => { d with user := some a }) .int64) := rfl

theorem find_other {k : String} : form.members.find? (·.name == k) = none ↔ k ≠ "campaignId" ∧ k ≠ "userId" := by
  rw [List.find?_eq_none]
  constructor
  · intro none
    refine ⟨?_, ?_⟩
    · rintro rfl
      exact none _ List.mem_cons_self rfl
    · rintro rfl
      exact none _ (List.mem_cons_of_mem _ List.mem_cons_self) rfl
  · rintro ⟨campaign, user⟩ m member same
    rcases List.mem_cons.mp member with rfl | member
    · exact campaign (eq_of_beq same).symm
    · obtain rfl := List.mem_singleton.mp member
      exact user (eq_of_beq same).symm

variable {bs rest : List UInt8} {d e : Draft}

theorem place_eq_ok {name : String} {get : Draft → Option Int} {set : Draft → Int → Draft} :
    (Json.Member.place name get set .int64).read d bs = .ok (e, rest) ↔
      ∃ i, Reader.int64 bs = .ok (i, rest) ∧ set d i = e := by
  refine map_eq_ok.trans ⟨?_, ?_⟩
  · rintro ⟨⟨i, left⟩, read, same⟩
    cases same
    exact ⟨i, read, rfl⟩
  · rintro ⟨i, read, rfl⟩
    exact ⟨(i, rest), read, rfl⟩

theorem pair_of_takes {r : List UInt8} (takes : RecordForm.Takes form.members d r e rest) :
    ∃ k c s t u, Text r k s ∧ Blanks s (58 :: t) ∧ Blanks t u ∧ Holds c u rest ∧ Draws d k c e := by
  cases takes with
  | @known after t _ k m _ key found free colon held =>
    have key := text_iff.mp key
    have colon := (skipBlanks_eq_cons.mp (colon_eq_ok.mp colon)).1
    by_cases campaign : k = "campaignId"
    · subst campaign
      obtain rfl := Option.some.inj (find_campaign.symm.trans found)
      obtain ⟨i, read, rfl⟩ := place_eq_ok.mp held
      obtain ⟨u, blanks, integer, holds⟩ := Reader.literal_of_integer read
      have free : d.campaign.isSome = false := free
      exact ⟨_, _, after, t, u, key, colon, blanks, .integer integer, .campaign (by simpa using free) holds⟩
    by_cases user : k = "userId"
    · subst user
      obtain rfl := Option.some.inj (find_user.symm.trans found)
      obtain ⟨i, read, rfl⟩ := place_eq_ok.mp held
      obtain ⟨u, blanks, integer, holds⟩ := Reader.literal_of_integer read
      have free : d.user.isSome = false := free
      exact ⟨_, _, after, t, u, key, colon, blanks, .integer integer, .user (by simpa using free) holds⟩
    · cases (find_other.mpr ⟨campaign, user⟩).symm.trans found
  | @unknown after t _ k key found colon passed =>
    obtain ⟨u, blanks, value⟩ := value_of_skip passed
    obtain ⟨campaign, user⟩ := find_other.mp found
    exact ⟨k, .value, after, t, u, text_iff.mp key, (skipBlanks_eq_cons.mp (colon_eq_ok.mp colon)).1, blanks,
      .value value, .other campaign user⟩

theorem takes_of_pair {k : String} {c : Content} {r s t u : List UInt8} (key : Text r k s) (colon : Blanks s (58 :: t))
    (blanks : Blanks t u) (value : Holds c u rest) (ends : Ends rest) (draws : Draws d k c e) :
    RecordForm.Takes form.members d r e rest := by
  have key := text_iff.mpr key
  have colon := colon_eq_ok.mpr (skipBlanks_eq_cons.mpr ⟨colon, rfl⟩)
  cases draws with
  | campaign free holds =>
    cases value with
    | integer integer =>
      have unfilled : d.campaign.isSome = false := by simp [free]
      exact .known key find_campaign unfilled colon
        (place_eq_ok.mpr ⟨_, Reader.int64_reads blanks integer ends holds, rfl⟩)
  | user free holds =>
    cases value with
    | integer integer =>
      have unfilled : d.user.isSome = false := by simp [free]
      exact .known key find_user unfilled colon (place_eq_ok.mpr ⟨_, Reader.int64_reads blanks integer ends holds, rfl⟩)
  | other campaign user =>
    have value : Value u rest := by
      cases value with
      | integer integer => exact .scalar (.number integer.number)
      | value value => exact value
    exact .unknown key (find_other.mpr ⟨campaign, user⟩) colon (skip_of_value blanks value ends)

inductive DrawsAll : Draft → List (String × Content) → Draft → Prop
  | nil (d : Draft) : DrawsAll d [] d
  | cons {d e f : Draft} {k : String} {c : Content} {ps : List (String × Content)} (draws : Draws d k c e)
      (later : DrawsAll e ps f) : DrawsAll d ((k, c) :: ps) f

/-- The pairs up to the closing bracket; after a pair, a comma comes first. -/
def Row (first : Bool) (ps : List (String × Content)) (bs rest : List UInt8) : Prop :=
  ps = [] ∧ Blanks bs (125 :: rest) ∨ first = true ∧ Pairs ps bs (125 :: rest) ∨
    first = false ∧ ∃ r, Blanks bs (44 :: r) ∧ Pairs ps r (125 :: rest)

theorem afterClosing_eq {after : List UInt8} (closes : Blanks after (125 :: rest)) :
    RecordForm.afterClosing 125 after = rest := by
  rw [RecordForm.afterClosing, skipBlanks_eq_cons.mpr ⟨closes, rfl⟩]
  rfl

theorem row_of_read {fuel : Nat} {first : Bool} {after : List UInt8}
    (read : RecordForm.readMembers form.members fuel first d bs = .ok (e, after)) :
    ∃ ps, Row first ps bs (RecordForm.afterClosing 125 after) ∧ DrawsAll d ps e := by
  induction fuel generalizing first d bs with
  | zero => cases read
  | succ fuel ih =>
    rcases RecordForm.readMembers_eq_ok.mp read with ⟨ends, rfl, rfl⟩ | ⟨r, f, left, next, takes, read⟩
    · obtain ⟨r, closes⟩ := RecordForm.nextKey_eq_none.mp ends
      have closes := (skipBlanks_eq_cons.mp closes).1
      exact ⟨[], .inl ⟨rfl, afterClosing_eq closes ▸ closes⟩, .nil d⟩
    · obtain ⟨k, c, s, t, u, key, colon, before, value, draws⟩ := pair_of_takes takes
      obtain ⟨ps, row, later⟩ := ih read
      refine ⟨(k, c) :: ps, ?_, .cons draws later⟩
      have pairs {start : List UInt8} (quote : Blanks start (34 :: r)) :
          Pairs ((k, c) :: ps) start (125 :: RecordForm.afterClosing 125 after) := by
        rcases row with ⟨rfl, closes⟩ | ⟨impossible, -⟩ | ⟨-, v, comma, pairs⟩
        · exact .last (.colon quote key colon before value closes)
        · cases impossible
        · exact .comma (.colon quote key colon before value comma) pairs
      rcases RecordForm.nextKey_eq_some.mp next with ⟨beginning, quote⟩ | ⟨going, v, comma, quote⟩
      · exact .inr (.inl ⟨beginning, pairs (skipBlanks_eq_cons.mp quote).1⟩)
      · exact .inr (.inr ⟨going, v, (skipBlanks_eq_cons.mp comma).1, pairs (skipBlanks_eq_cons.mp quote).1⟩)

def Entered (first : Bool) (bs r : List UInt8) : Prop := first = true ∧ bs = r ∨ first = false ∧ Blanks bs (44 :: r)

theorem Entered.key {first : Bool} {r s : List UInt8} (entered : Entered first bs r) (quote : Blanks r (34 :: s)) :
    RecordForm.nextKey first bs = .ok (some s) := by
  have quote := skipBlanks_eq_cons.mpr ⟨quote, rfl⟩
  rcases entered with ⟨beginning, rfl⟩ | ⟨going, comma⟩
  · exact RecordForm.nextKey_eq_some.mpr (.inl ⟨beginning, quote⟩)
  · exact RecordForm.nextKey_eq_some.mpr (.inr ⟨going, r, skipBlanks_eq_cons.mpr ⟨comma, rfl⟩, quote⟩)

theorem read_pair {first : Bool} {k : String} {c : Content} {r left : List UInt8} (entered : Entered first bs r)
    (pair : Pair k c r left) (ends : Ends left) (draws : Draws d k c e) :
    ∃ v, Blanks v left ∧ ∀ {fuel found}, RecordForm.readMembers form.members fuel false e v = .ok found →
      RecordForm.readMembers form.members (fuel + 1) first d bs = .ok found := by
  cases pair with
  | colon quote key colon before value after =>
    refine ⟨_, after, fun {fuel found} read => ?_⟩
    have takes := takes_of_pair key colon before value (after.ends ends) draws
    exact RecordForm.readMembers_eq_ok.mpr (.inr ⟨_, e, _, entered.key quote, takes, read⟩)

theorem read_of_pairs {ps : List (String × Content)} {r left : List UInt8} (pairs : Pairs ps r left)
    (closes : left = 125 :: rest) {first : Bool} (entered : Entered first bs r) (draws : DrawsAll d ps e) {fuel : Nat}
    (enough : ps.length < fuel) :
    ∃ after, RecordForm.readMembers form.members fuel first d bs = .ok (e, after) ∧ Blanks after (125 :: rest) := by
  induction pairs generalizing d first bs fuel with
  | last pair =>
    subst closes
    obtain ⟨fuel, rfl⟩ := Nat.exists_eq_add_of_lt enough
    cases draws with
    | cons draws later =>
      cases later with
      | nil =>
        obtain ⟨v, closes, read⟩ := read_pair entered pair (ends_closing .object rest) draws
        have ends : RecordForm.nextKey false v = .ok none :=
          RecordForm.nextKey_eq_none.mpr ⟨rest, skipBlanks_eq_cons.mpr ⟨closes, rfl⟩⟩
        refine ⟨v, read ?_, closes⟩
        rw [List.length_singleton, Nat.add_comm 1 fuel]
        exact RecordForm.readMembers_eq_ok.mpr (.inl ⟨ends, rfl, rfl⟩)
  | comma pair later ih =>
    obtain ⟨fuel, rfl⟩ := Nat.exists_eq_succ_of_ne_zero (Nat.ne_zero_of_lt enough)
    cases draws with
    | cons draws others =>
      obtain ⟨v, comma, read⟩ := read_pair entered pair (ends_comma _) draws
      obtain ⟨after, read', closes⟩ := ih closes (.inr ⟨rfl, comma⟩) others (Nat.lt_of_succ_lt_succ enough)
      exact ⟨after, read read', closes⟩

theorem object_of_read {r : List UInt8} {fuel : Nat} {after : List UInt8}
    (read : RecordForm.readMembers form.members fuel true form.empty r = .ok (e, after)) :
    ∃ ps, Object ps (123 :: r) (RecordForm.afterClosing 125 after) ∧ DrawsAll {} ps e := by
  obtain ⟨ps, ⟨rfl, closes⟩ | ⟨-, pairs⟩ | ⟨impossible, -⟩, draws⟩ := row_of_read read
  · exact ⟨[], .empty closes, draws⟩
  · exact ⟨ps, .pairs pairs, draws⟩
  · cases impossible

theorem read_of_object {ps : List (String × Content)} (object : Object ps bs rest) (draws : DrawsAll {} ps e) :
    ∃ r after, bs = 123 :: r ∧
      RecordForm.readMembers form.members (r.length + 1) true form.empty r = .ok (e, after) ∧
      RecordForm.afterClosing 125 after = rest := by
  cases object with
  | @empty r _ closes =>
    cases draws with
    | nil =>
      have ends : RecordForm.nextKey true r = .ok none :=
        RecordForm.nextKey_eq_none.mpr ⟨rest, skipBlanks_eq_cons.mpr ⟨closes, rfl⟩⟩
      exact ⟨r, r, rfl, RecordForm.readMembers_eq_ok.mpr (.inl ⟨ends, rfl, rfl⟩), afterClosing_eq closes⟩
  | @pairs _ r _ pairs =>
    have enough := pairs.length (ends_closing .object rest)
    obtain ⟨after, read, closes⟩ :=
      read_of_pairs pairs rfl (.inl ⟨rfl, rfl⟩) draws (Nat.lt_succ_of_le (Nat.le_of_add_right_le enough))
    exact ⟨r, after, rfl, read, afterClosing_eq closes⟩

/-! What the pairs leave in the draft. -/

def Fills (k : String) (ps : List (String × Content)) (o o' : Option Int) : Prop :=
  o' = o ∧ ps.filter (·.1 == k) = [] ∨
    o = none ∧ ∃ i, o' = some i ∧ Once ps k i ∧ Number.int64.holds i = true

section Fills
variable {k : String} {c : Content} {ps : List (String × Content)} {o o' : Option Int}

theorem fills_nil : Fills k [] o o' ↔ o' = o := by simp [Fills, Once]

theorem fills_same : Fills k ((k, c) :: ps) o o' ↔
    o = none ∧ ∃ i, c = .integer i ∧ Number.int64.holds i = true ∧ Fills k ps (some i) o' := by
  simp only [Fills, Once, List.filter_cons, beq_self_eq_true, if_true, List.cons.injEq, reduceCtorEq, and_false,
    false_and, false_or, or_false]
  constructor
  · rintro ⟨free, i, rfl, ⟨same, none⟩, holds⟩
    exact ⟨free, i, (Prod.mk.inj same).2, holds, rfl, none⟩
  · rintro ⟨free, i, rfl, holds, rfl, none⟩
    exact ⟨free, i, rfl, ⟨rfl, none⟩, holds⟩

theorem fills_other {l : String} (differ : l ≠ k) : Fills k ((l, c) :: ps) o o' ↔ Fills k ps o o' := by
  simp [Fills, Once, differ]

end Fills

theorem drawsAll_iff {ps : List (String × Content)} : DrawsAll d ps e ↔
    Fills "campaignId" ps d.campaign e.campaign ∧ Fills "userId" ps d.user e.user := by
  induction ps generalizing d with
  | nil =>
    rw [fills_nil, fills_nil]
    constructor
    · rintro ⟨⟩
      exact ⟨rfl, rfl⟩
    · intro same
      obtain rfl : e = d := by
        cases d
        cases e
        simpa using same
      exact .nil e
  | cons p ps ih =>
    obtain ⟨k, c⟩ := p
    constructor
    · rintro ⟨⟩
      rename_i draws later
      obtain ⟨campaign, user⟩ := ih.mp later
      cases draws with
      | campaign free holds =>
        exact ⟨fills_same.mpr ⟨free, _, rfl, holds, campaign⟩, (fills_other (by decide)).mpr user⟩
      | user free holds => exact ⟨(fills_other (by decide)).mpr campaign, fills_same.mpr ⟨free, _, rfl, holds, user⟩⟩
      | other unlike unlike' => exact ⟨(fills_other unlike).mpr campaign, (fills_other unlike').mpr user⟩
    · rintro ⟨campaign, user⟩
      by_cases first : k = "campaignId"
      · subst first
        obtain ⟨free, i, rfl, holds, campaign⟩ := fills_same.mp campaign
        exact .cons (.campaign free holds) (ih.mpr ⟨campaign, (fills_other (by decide)).mp user⟩)
      by_cases second : k = "userId"
      · subst second
        obtain ⟨free, i, rfl, holds, user⟩ := fills_same.mp user
        exact .cons (.user free holds) (ih.mpr ⟨(fills_other (by decide)).mp campaign, user⟩)
      · exact .cons (.other first second) (ih.mpr ⟨(fills_other first).mp campaign, (fills_other second).mp user⟩)

theorem finish_eq_ok {p : Participation} : form.finish d = .ok p ↔ d = ⟨some p.campaign, some p.user⟩ := by
  obtain ⟨campaign, user⟩ := d
  cases campaign <;> cases user <;> cases p <;>
    simp [form, Json.required, Except.bind, bind, pure, Except.pure]

theorem drawsAll_finished {ps : List (String × Content)} {p : Participation} :
    (∃ d, DrawsAll {} ps d ∧ form.finish d = .ok p) ↔
      Once ps "campaignId" p.campaign ∧ Once ps "userId" p.user ∧
        Number.int64.holds p.campaign = true ∧ Number.int64.holds p.user = true := by
  have once {k : String} {i : Int} :
      Fills k ps none (some i) ↔ Once ps k i ∧ Number.int64.holds i = true := by
    simp [Fills]
  constructor
  · rintro ⟨d, draws, finished⟩
    obtain rfl := finish_eq_ok.mp finished
    obtain ⟨campaign, user⟩ := drawsAll_iff.mp draws
    obtain ⟨campaign, holds⟩ := once.mp campaign
    obtain ⟨user, holds'⟩ := once.mp user
    exact ⟨campaign, user, holds, holds'⟩
  · rintro ⟨campaign, user, holds, holds'⟩
    exact ⟨_, drawsAll_iff.mpr ⟨once.mpr ⟨campaign, holds⟩, once.mpr ⟨user, holds'⟩⟩, finish_eq_ok.mpr rfl⟩

/-! The list of the two integers. -/

theorem two_of_read {r after : List UInt8} (read : RecordForm.readInOrder form form.members 0 {} r = .ok (e, after))
    (closes : Reader.endList after = .ok rest) :
    ∃ i j, Two i j (91 :: r) rest ∧ e = ⟨some i, some j⟩ ∧
      Number.int64.holds i = true ∧ Number.int64.holds j = true := by
  obtain ⟨s, f, left, next, place, read⟩ := (RecordForm.readInOrder_eq_ok rfl).mp read
  obtain ⟨t, g, left', next', place', read⟩ := (RecordForm.readInOrder_eq_ok rfl).mp read
  obtain ⟨i, first, rfl⟩ := place_eq_ok.mp place
  obtain ⟨j, second, rfl⟩ := place_eq_ok.mp place'
  cases read
  obtain ⟨u, blanks, integer, holds⟩ := Reader.literal_of_integer first
  obtain ⟨v, blanks', integer', holds'⟩ := Reader.literal_of_integer second
  obtain ⟨-, ⟨-, rfl⟩ | ⟨impossible, -⟩⟩ := Reader.nextElement_eq_some.mp next
  · obtain ⟨-, ⟨impossible, -⟩ | ⟨-, w, comma, rfl⟩⟩ := Reader.nextElement_eq_some.mp next'
    · cases impossible
    · refine ⟨i, j, ?_, rfl, holds, holds'⟩
      exact .list ((blanks_skipBlanks r).trans blanks) integer (skipBlanks_eq_cons.mp comma).1
        ((blanks_skipBlanks w).trans blanks') integer' (skipBlanks_eq_cons.mp (Reader.endList_eq_ok.mp closes)).1
  · cases impossible

theorem element_stands {first : Bool} {r s t : List UInt8} {i : Int} (integer : Integer s i t)
    (entered : Entered first bs r) (blanks : Blanks r s) :
    Reader.nextElement first bs = .ok (some s) := by
  obtain ⟨b, tail, rfl, starts⟩ := (Stands.scalar (.number integer.number)).starts
  refine Reader.nextElement_eq_some.mpr ⟨⟨b, tail, rfl, starts.bracket .list⟩, ?_⟩
  have next := skipBlanks_eq_cons.mpr ⟨blanks, starts.blank⟩
  rcases entered with ⟨beginning, rfl⟩ | ⟨going, comma⟩
  · exact .inl ⟨beginning, next⟩
  · exact .inr ⟨going, r, skipBlanks_eq_cons.mpr ⟨comma, rfl⟩, next⟩

theorem read_of_two {i j : Int} (two : Two i j bs rest) (holds : Number.int64.holds i = true)
    (holds' : Number.int64.holds j = true) :
    ∃ r after, bs = 91 :: r ∧ RecordForm.readInOrder form form.members 0 {} r = .ok (⟨some i, some j⟩, after) ∧
      Reader.endList after = .ok rest := by
  cases two with
  | list before first comma between second after =>
    refine ⟨_, _, rfl, ?_, Reader.endList_eq_ok.mpr (skipBlanks_eq_cons.mpr ⟨after, rfl⟩)⟩
    have read := Reader.int64_reads (Blanks.refl _) first (comma.ends (ends_comma _)) holds
    have read' := Reader.int64_reads (Blanks.refl _) second (after.ends (ends_closing .list rest)) holds'
    refine (RecordForm.readInOrder_eq_ok rfl).mpr
      ⟨_, ⟨some i, none⟩, _, element_stands first (.inl ⟨rfl, rfl⟩) before, place_eq_ok.mpr ⟨i, read, rfl⟩, ?_⟩
    exact (RecordForm.readInOrder_eq_ok rfl).mpr
      ⟨_, ⟨some i, some j⟩, _, element_stands second (.inr ⟨rfl, comma⟩) between, place_eq_ok.mpr ⟨j, read', rfl⟩, rfl⟩

theorem event_of_read {p : Participation} (read : reader bs = .ok (p, rest)) : ∃ s, Blanks bs s ∧ Event p s rest ∧
    Number.int64.holds p.campaign = true ∧ Number.int64.holds p.user = true := by
  rcases RecordForm.reader_eq_ok.mp read with ⟨r, d, after, next, members, finished, rfl⟩ |
    ⟨r, d, after, next, members, finished, ends⟩
  · obtain ⟨ps, object, draws⟩ := object_of_read members
    obtain ⟨campaign, user, holds, holds'⟩ := drawsAll_finished.mp ⟨d, draws, finished⟩
    exact ⟨_, (skipBlanks_eq_cons.mp next).1, .object object campaign user, holds, holds'⟩
  · obtain ⟨i, j, two, rfl, holds, holds'⟩ := two_of_read members ends
    cases finish_eq_ok.mp finished
    exact ⟨_, (skipBlanks_eq_cons.mp next).1, .list two, holds, holds'⟩

theorem read_of_event {p : Participation} {s : List UInt8} (blanks : Blanks bs s) (event : Event p s rest)
    (holds : Number.int64.holds p.campaign = true) (holds' : Number.int64.holds p.user = true) :
    reader bs = .ok (p, rest) := by
  refine RecordForm.reader_eq_ok.mpr ?_
  cases event with
  | object object campaign user =>
    obtain ⟨d, draws, finished⟩ := drawsAll_finished.mpr ⟨campaign, user, holds, holds'⟩
    obtain ⟨r, after, rfl, read, closes⟩ := read_of_object object draws
    exact .inl ⟨r, d, after, skipBlanks_eq_cons.mpr ⟨blanks, rfl⟩, read, finished, closes⟩
  | list two =>
    obtain ⟨r, after, rfl, read, ends⟩ := read_of_two two holds holds'
    exact .inr ⟨r, _, after, skipBlanks_eq_cons.mpr ⟨blanks, rfl⟩, read, finish_eq_ok.mpr rfl, ends⟩

end Participation

theorem document_eq_ok {α : Type} {r : Reader α} {bs : List UInt8} {a : α} :
    Json.document r bs = .ok a ↔ ∃ rest, r bs = .ok (a, rest) ∧ skipBlanks rest = [] := by
  rw [Json.document]
  cases read : r bs with
  | error f => simp
  | ok found =>
    obtain ⟨b, rest⟩ := found
    dsimp only
    cases left : skipBlanks rest <;> simp [left]

/-- A message is read as the event that its payload tells, and as no other. -/
theorem decode_iff_tells {m : Message} {p : Participation} : m.decode = .ok p ↔ Tells m.payload p := by
  rw [Message.decode_eq_ok, document_eq_ok]
  constructor
  · rintro ⟨rest, read, ends⟩
    obtain ⟨s, blanks, event, holds, holds'⟩ := Participation.event_of_read read
    exact ⟨⟨s, rest, blanks, event, skipBlanks_eq_nil.mp ends⟩, holds, holds'⟩
  · rintro ⟨⟨r, s, blanks, event, ends⟩, holds, holds'⟩
    exact ⟨s, Participation.read_of_event blanks event holds holds', skipBlanks_eq_nil.mpr ends⟩

end CampaignSettlement.Wire
