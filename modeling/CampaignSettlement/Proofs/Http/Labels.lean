import Mathlib.Data.Finset.Card
import CampaignSettlement.Http.Response
import CampaignSettlement.Proofs.Metrics.Counts
import CampaignSettlement.Proofs.Text.Digits
import CampaignSettlement.Proofs.Text.Mending

/-!
Error responses under labels. The first forty codes that differ have labels of their own, all others share one. The label
of a code is settled when the code first comes, so that each error is counted under the label that its code has for good,
none is left out, and the labels stay few whatever codes come.
-/
namespace CampaignSettlement.Http

open Metrics (Counts)

def Response.isError (r : Response) : Bool := 400 ≤ r.status

namespace ErrorWatch

/-! The code that a response bears. -/

def IsReadable (c : Char) : Prop := c = '\t' ∨ 32 ≤ c.toNat ∧ c.toNat < 127

/-- The header of a response is this code, all of it readable. -/
structure States (r : Response) (code : String) : Prop where
  header : r.errorCode = some (Text.Utf8.encode code)
  readable : ∀ c ∈ code.toList, IsReadable c

/-- The code of a response: what it states, or the word for nothing that can be read. -/
inductive Bears (r : Response) : String → Prop
  | stated {code : String} (states : States r code) : Bears r code
  | silent (mute : ∀ code, ¬States r code) : Bears r "none"

theorem isVisible_iff (b : UInt8) : isVisible b = true ↔ b.toNat = 9 ∨ 32 ≤ b.toNat ∧ b.toNat < 127 := by
  simp [isVisible, UInt8.le_iff_toNat_le, UInt8.lt_iff_toNat_lt, ← UInt8.toNat_inj]

theorem visible_char (c : Char) : (String.utf8EncodeChar c).all isVisible = true ↔ IsReadable c := by
  have tab : c = '\t' ↔ c.toNat = 9 := Char.toNat_inj.symm
  rw [IsReadable, tab]
  rcases Nat.lt_or_ge c.toNat 128 with narrow | wide
  · rw [Text.Utf8.char_ascii narrow, List.all_cons, List.all_nil, Bool.and_true, isVisible_iff,
      Text.Utf8.toNat_of (by omega)]
  · obtain ⟨b, ts, spelled⟩ := Text.Utf8.spelled c
    have high : 128 ≤ b.toNat := Text.Utf8.char_wide wide b (by simp [spelled])
    rw [spelled, List.all_cons, Bool.and_eq_true, isVisible_iff]
    omega

theorem visible_encode (code : String) :
    (Text.Utf8.encode code).all isVisible = true ↔ ∀ c ∈ code.toList, IsReadable c := by
  rw [Text.Utf8.encode, List.all_flatMap, List.all_eq_true]
  simp only [visible_char]

theorem encode_lossy {bytes : List UInt8} (visible : bytes.all isVisible = true) :
    Text.Utf8.encode (Text.Utf8.lossy bytes) = bytes := by
  refine Text.Utf8.alike_narrow (Text.Utf8.alike_lossy bytes) (.inl ?_)
  intro b member
  have seen := (isVisible_iff b).mp (List.all_eq_true.mp visible b member)
  omega

theorem states_iff {r : Response} {code : String} :
    States r code ↔ ∃ bytes, r.errorCode = some bytes ∧ bytes.all isVisible = true ∧ code = Text.Utf8.lossy bytes := by
  constructor
  · intro states
    exact ⟨_, states.header, (visible_encode code).mpr states.readable, (Text.Utf8.lossy_encode code).symm⟩
  · rintro ⟨bytes, header, visible, rfl⟩
    have same := encode_lossy visible
    refine ⟨by rw [same, header], (visible_encode _).mp ?_⟩
    rw [same]
    exact visible

theorem bears_codeOf (r : Response) : Bears r (codeOf r) := by
  unfold codeOf
  split
  · next bytes header =>
    split
    · next visible => exact .stated (states_iff.mpr ⟨bytes, header, visible, rfl⟩)
    · next hidden =>
      refine .silent fun code states => ?_
      obtain ⟨bytes', header', visible, -⟩ := states_iff.mp states
      obtain rfl := Option.some.inj (header.symm.trans header')
      exact hidden visible
  · next header =>
    refine .silent fun code states => ?_
    have header' := states.header
    rw [header] at header'
    cases header'

theorem bears_iff {r : Response} {code : String} : Bears r code ↔ codeOf r = code := by
  constructor
  · intro bears
    cases bears with
    | stated states =>
      obtain ⟨bytes, header, visible, rfl⟩ := states_iff.mp states
      simp only [codeOf, header, visible, if_true]
    | silent mute =>
      have bears := bears_codeOf r
      generalize codeOf r = code at bears ⊢
      cases bears with
      | stated states => exact absurd states (mute _)
      | silent => rfl
  · rintro rfl
    exact bears_codeOf r

/-! The labels of codes. -/

/-- The codes with labels of their own: the first forty that differ. -/
def ownCodes (codes : List String) : List String := codes.eraseDups.take 40

def labelAmong (codes : List String) (code : String) : String := if code ∈ ownCodes codes then code else "other"

variable {codes : List String} {code : String}

theorem ownCodes_length (codes : List String) : (ownCodes codes).length ≤ 40 := List.length_take_le _ _

theorem mem_of_ownCodes (own : code ∈ ownCodes codes) : code ∈ codes := List.mem_eraseDups.mp (List.mem_of_mem_take own)

/-- What comes later takes no label from a code and gives none to one that has to share. -/
theorem mem_ownCodes_append (member : code ∈ codes) (later : List String) :
    code ∈ ownCodes (codes ++ later) ↔ code ∈ ownCodes codes := by
  rw [ownCodes, ownCodes, List.eraseDups_append, List.take_append, List.mem_append]
  constructor
  · rintro (early | late)
    · exact early
    · have fresh : code ∈ later.removeAll codes := List.mem_eraseDups.mp (List.mem_of_mem_take late)
      simp [List.removeAll, member] at fresh
  · exact Or.inl

theorem labelAmong_append (member : code ∈ codes) (later : List String) :
    labelAmong (codes ++ later) code = labelAmong codes code := by
  simp only [labelAmong, mem_ownCodes_append member]

theorem ownCodes_again (member : code ∈ codes) : ownCodes (codes ++ [code]) = ownCodes codes := by
  have none_new : [code].removeAll codes = [] := by simp [List.removeAll, member]
  rw [ownCodes, List.eraseDups_append, none_new, List.eraseDups_nil, List.append_nil, ownCodes]

theorem ownCodes_room (room : (ownCodes codes).length < 40) : ownCodes codes = codes.eraseDups := by
  rw [ownCodes, List.length_take] at room
  exact List.take_of_length_le (by omega)

theorem ownCodes_fresh (room : (ownCodes codes).length < 40) (fresh : code ∉ codes) :
    ownCodes (codes ++ [code]) = ownCodes codes ++ [code] := by
  have new : [code].removeAll codes = [code] := by simp [List.removeAll, fresh]
  have all := ownCodes_room room
  rw [all] at room
  rw [all, ownCodes, List.eraseDups_append, new]
  exact List.take_of_length_le (by simpa [List.eraseDups_cons] using room)

theorem ownCodes_full (full : 40 ≤ (ownCodes codes).length) (later : List String) :
    ownCodes (codes ++ later) = ownCodes codes := by
  rw [ownCodes, List.length_take] at full
  rw [ownCodes, List.eraseDups_append, List.take_append_of_le_length (by omega), ownCodes]

theorem label_ownCodes (codes : List String) (code : String) :
    label (ownCodes codes) code = (labelAmong (codes ++ [code]) code, ownCodes (codes ++ [code])) := by
  by_cases own : code ∈ ownCodes codes
  · rw [label, if_pos (List.contains_iff_mem.mpr own), labelAmong, ownCodes_again (mem_of_ownCodes own), if_pos own]
  · have unseen : ¬(ownCodes codes).contains code = true := fun seen => own (List.contains_iff_mem.mp seen)
    by_cases room : (ownCodes codes).length < labelLimit
    · have fresh : code ∉ codes := by
        rw [ownCodes_room room, List.mem_eraseDups] at own
        exact own
      rw [label, if_neg unseen, if_pos room, labelAmong, ownCodes_fresh room fresh, if_pos List.mem_concat_self]
    · rw [label, if_neg unseen, if_neg room, labelAmong, ownCodes_full (Nat.not_lt.mp room), if_neg own]
      rfl

theorem labelAmong_cases (codes : List String) (code : String) :
    labelAmong codes code ∈ "other" :: ownCodes codes := by
  rw [labelAmong]
  split
  · next own => exact List.mem_cons_of_mem _ own
  · exact List.mem_cons_self

theorem labelAmong_eq_own (own : code ∈ ownCodes codes) (apart : code ≠ "other") (other : String) :
    labelAmong codes other = code ↔ other = code := by
  rw [labelAmong]
  split
  · rfl
  · next shared =>
    refine iff_of_false (Ne.symm apart) ?_
    rintro rfl
    exact shared own

theorem labelAmong_eq_other (codes : List String) (code : String) :
    labelAmong codes code = "other" ↔ code ∉ ownCodes codes ∨ code = "other" := by
  rw [labelAmong]
  split
  · next own => simp [own]
  · next shared => simp [shared]

/-! What a watch has observed. -/

def watched (service : String) (rs : List Response) : ErrorWatch := rs.foldl observe { service }

def codesOf (rs : List Response) : List String := (rs.filter Response.isError).map codeOf

def row (service : String) (codes : List String) (r : Response) : List String :=
  [labelAmong codes (codeOf r), service, toString r.status]

def rows (service : String) (rs : List Response) : List (List String) :=
  (rs.filter Response.isError).map (row service (codesOf rs))

variable {service : String} {rs : List Response} {r : Response}

theorem watched_snoc (service : String) (rs : List Response) (r : Response) :
    watched service (rs ++ [r]) = (watched service rs).observe r := by
  rw [watched, List.foldl_append]
  rfl

theorem codesOf_append (rs more : List Response) : codesOf (rs ++ more) = codesOf rs ++ codesOf more := by
  rw [codesOf, List.filter_append, List.map_append, codesOf, codesOf]

theorem codesOf_error (error : r.isError = true) : codesOf [r] = [codeOf r] := by
  rw [codesOf, List.filter_singleton, error]
  rfl

theorem codesOf_calm (calm : r.isError = false) : codesOf [r] = [] := by
  rw [codesOf, List.filter_singleton, calm]
  rfl

theorem mem_codesOf (member : r ∈ rs) (error : r.isError = true) : codeOf r ∈ codesOf rs :=
  List.mem_map_of_mem (List.mem_filter.mpr ⟨member, error⟩)

theorem row_append (service : String) (member : r ∈ rs) (error : r.isError = true) (more : List Response) :
    row service (codesOf (rs ++ more)) r = row service (codesOf rs) r := by
  rw [row, codesOf_append, labelAmong_append (mem_codesOf member error), row]

theorem rows_append (service : String) (rs more : List Response) :
    rows service (rs ++ more) =
      rows service rs ++ (more.filter Response.isError).map (row service (codesOf (rs ++ more))) := by
  rw [rows, List.filter_append, List.map_append, rows]
  congr 1
  refine List.map_congr_left fun r member => ?_
  obtain ⟨member, error⟩ := List.mem_filter.mp member
  exact row_append service member error more

theorem observe_calm (calm : r.isError = false) (w : ErrorWatch) : w.observe r = w := by
  rw [observe, if_pos (by simpa [Response.isError] using calm)]

theorem observe_error (error : r.isError = true) {w : ErrorWatch} {codes : List String} (seen : w.seen = ownCodes codes) :
    w.observe r =
      { w with seen := ownCodes (codes ++ [codeOf r])
               counts := Counts.add w.counts (row w.service (codes ++ [codeOf r]) r) 1 } := by
  rw [observe, if_neg (by simpa [Response.isError] using error), seen, label_ownCodes]
  rfl

theorem watched_eq (service : String) (rs : List Response) :
    watched service rs = { service, seen := ownCodes (codesOf rs), counts := .tally (rows service rs) } := by
  induction rs using List.reverseRecOn with
  | nil => rfl
  | append_singleton rs r ih =>
    rw [watched_snoc, ih, rows_append, codesOf_append, List.filter_singleton]
    cases error : r.isError with
    | false =>
      rw [observe_calm error, codesOf_calm error, List.append_nil]
      simp
    | true =>
      rw [observe_error error rfl, codesOf_error error]
      simp [Counts.tally_snoc]

theorem counts_watched (service : String) (rs : List Response) :
    (watched service rs).counts = .tally (rows service rs) := by rw [watched_eq]

theorem row_eq_iff {codes : List String} {label : String} {status : Nat} :
    row service codes r = [label, service, toString status] ↔ labelAmong codes (codeOf r) = label ∧ r.status = status := by
  have texts : toString r.status = toString status ↔ r.status = status := Text.toString_injective.eq_iff
  rw [row, List.cons_eq_cons, List.cons_eq_cons, List.cons_eq_cons, texts]
  simp

theorem of_watched (service : String) (rs : List Response) (labels : List String) :
    (watched service rs).counts.of labels =
      .ofNat (rs.countP fun r => r.isError ∧ row service (codesOf rs) r = labels) := by
  rw [counts_watched, Counts.of_tally, rows, List.count, List.countP_map, List.countP_filter]
  refine congrArg UInt64.ofNat (List.countP_congr fun r _ => ?_)
  simp [and_comm]

def labels (w : ErrorWatch) : List String := w.counts.keys.filterMap List.head?

/-- How a watch has counted the errors among these responses. Counters are words of 64 bits. -/
structure Labelled (service : String) (rs : List Response) : Prop where
  codes : ∀ r ∈ rs, ∀ code, Bears r code ↔ codeOf r = code
  own : ∀ code ∈ ownCodes (codesOf rs), code ≠ "other" → ∀ status,
    (watched service rs).counts.of [code, service, toString status] =
      .ofNat (rs.countP fun r => r.isError ∧ codeOf r = code ∧ r.status = status)
  /-- One of the codes may have the name of this label. -/
  shared : ∀ status, (watched service rs).counts.of ["other", service, toString status] =
    .ofNat (rs.countP fun r =>
      r.isError ∧ (codeOf r ∉ ownCodes (codesOf rs) ∨ codeOf r = "other") ∧ r.status = status)
  shown : ∀ labels, labels ∈ (watched service rs).counts.keys ↔
    ∃ r ∈ rs, r.isError = true ∧ labels = row service (codesOf rs) r
  /-- Each time that a counter is full, the sum falls behind by what it can hold. -/
  sum : ∃ rounds, (watched service rs).counts.total + rounds * UInt64.size = rs.countP Response.isError
  sumExact : rs.countP Response.isError < UInt64.size → (watched service rs).counts.total = rs.countP Response.isError
  few : (watched service rs).labels.toFinset.card ≤ 41
  /-- The label under which an error is counted is the one that its code has in the end. -/
  each : ∀ before r after, rs = before ++ r :: after →
    (watched service (before ++ [r])).counts =
      if r.isError then (watched service before).counts.add (row service (codesOf rs) r) 1
      else (watched service before).counts

theorem counts_snoc (error : r.isError = true) : (watched service (rs ++ [r])).counts =
    Counts.add (watched service rs).counts (row service (codesOf (rs ++ [r])) r) 1 := by
  rw [counts_watched, rows_append, List.filter_singleton, error, counts_watched]
  exact Counts.tally_snoc _ _

theorem length_rows (service : String) (rs : List Response) :
    (rows service rs).length = rs.countP Response.isError := by
  rw [rows, List.length_map, List.countP_eq_length_filter]

theorem mem_keys_watched (service : String) (rs : List Response) (labels : List String) :
    labels ∈ (watched service rs).counts.keys ↔ ∃ r ∈ rs, r.isError = true ∧ labels = row service (codesOf rs) r := by
  rw [counts_watched, Counts.mem_keys_tally, rows, List.mem_map]
  constructor
  · rintro ⟨r, member, rfl⟩
    obtain ⟨member, error⟩ := List.mem_filter.mp member
    exact ⟨r, member, error, rfl⟩
  · rintro ⟨r, member, error, rfl⟩
    exact ⟨r, List.mem_filter.mpr ⟨member, error⟩, rfl⟩

theorem labels_few (service : String) (rs : List Response) :
    (watched service rs).labels.toFinset.card ≤ 41 := by
  have inside : (watched service rs).labels.toFinset ⊆ ("other" :: ownCodes (codesOf rs)).toFinset := by
    intro label member
    obtain ⟨labels, shown, first⟩ := List.mem_filterMap.mp (List.mem_toFinset.mp member)
    obtain ⟨r, -, -, rfl⟩ := (mem_keys_watched service rs labels).mp shown
    obtain rfl := Option.some.inj first
    exact List.mem_toFinset.mpr (labelAmong_cases _ _)
  calc (watched service rs).labels.toFinset.card
      ≤ ("other" :: ownCodes (codesOf rs)).toFinset.card := Finset.card_le_card inside
    _ ≤ (ownCodes (codesOf rs)).length + 1 := List.toFinset_card_le _
    _ ≤ 41 := Nat.succ_le_succ (ownCodes_length _)

theorem errors_labelled (service : String) (rs : List Response) : Labelled service rs := by
  constructor
  · intro r _ code
    exact bears_iff
  · intro code own apart status
    rw [of_watched]
    simp only [row_eq_iff, labelAmong_eq_own own apart]
  · intro status
    rw [of_watched]
    simp only [row_eq_iff, labelAmong_eq_other]
  · exact mem_keys_watched service rs
  · rw [← length_rows service, counts_watched]
    exact Counts.total_tally _
  · intro room
    rw [← length_rows service] at room ⊢
    rw [counts_watched]
    exact Counts.total_tally_exact room
  · exact labels_few service rs
  · rintro before r after rfl
    cases error : r.isError with
    | false =>
      rw [watched_snoc, observe_calm error]
      rfl
    | true =>
      have settled := row_append service (List.mem_append_right before (List.mem_singleton_self r)) error after
      rw [List.append_assoc, List.singleton_append] at settled
      rw [if_pos rfl, settled]
      exact counts_snoc error

def crowd : List Response :=
  let coded (n : Nat) : Response := { status := 400, errorCode := some [.ofNat (48 + n)] }
  (List.range 39).map coded ++
    [.empty 404, { status := 502, errorCode := some [200] }, coded 39, .plain 200 "ok", coded 40, coded 0]

theorem errors_labelled_crowd :
    crowd.countP Response.isError = 44 ∧ (watched "test-svc" crowd).counts.total = 44 ∧
      (watched "test-svc" crowd).counts.of ["other", "test-svc", "400"] = 2 ∧
      Labelled "test-svc" crowd := by
  have labelled := errors_labelled "test-svc" crowd
  have errors : crowd.countP Response.isError = 44 := by decide +kernel
  have total := labelled.sumExact (by rw [errors]; decide)
  have shared := labelled.shared 400
  refine ⟨errors, total.trans errors, shared.trans ?_, labelled⟩
  decide +kernel

end ErrorWatch

end CampaignSettlement.Http
