import CampaignSettlement.Proofs.Settlement.Conservation
import CampaignSettlement.Proofs.Settlement.Failures

/-!
What dead letters enclose. Each is made of messages of its batch, at an instant that was read off the clock just before;
so it can be read again, and its texts give back the messages that were taken out of settlement.
-/
namespace CampaignSettlement.Settlement

open Calendar (Instant)
open Wire (Envelope Message)

def reading? : Exchange → Option Instant
  | ⟨.now, t⟩ => some t
  | _ => none

def readingsIn (xs : List Exchange) : List Instant := xs.filterMap reading?

/-- A letter for messages out of `ms`, sealed at one of the instants `clock`. -/
inductive Seals (ms : List Message) (clock : List Instant) : Envelope → Prop
  | single {m : Message} {t : Instant} (member : m ∈ ms) (read : t ∈ clock) (reason : Reason) (detail : String) :
      Seals ms clock (.single m.text reason.name reason.persistence detail t)
  | group {gs : List Message} {t : Instant} (part : gs.Sublist ms) (read : t ∈ clock) (reason : Reason)
      (detail : String) : Seals ms clock (.group (gs.map Message.text) reason.name reason.persistence detail t)

theorem seals_later {ms : List Message} {clock : List Instant} {e : Envelope} (sealed : Seals ms clock e)
    (more : List Instant) : Seals ms (clock ++ more) e := by
  cases sealed with
  | single member read reason detail => exact .single member (List.mem_append_left more read) reason detail
  | group part read reason detail => exact .group part (List.mem_append_left more read) reason detail

/-- Lets only letters pass that are made of messages out of `ms`, at an instant that has been read. -/
def sealing (ms : List Message) : Watch (List Instant) where
  allows clock q := ∀ e ∈ q.letter?, Seals ms clock e
  after clock q r := clock ++ (reading? ⟨q, r⟩).toList

theorem track_sealing (ms : List Message) (clock : List Instant) (xs : List Exchange) :
    (sealing ms).track clock xs = clock ++ readingsIn xs := by
  induction xs generalizing clock with
  | nil => simp [Watch.track, readingsIn]
  | cons x xs ih =>
    refine (ih _).trans ?_
    cases read : reading? x <;> simp [sealing, readingsIn, read]

def Encloses {α : Type} (ms : List Message) (p : Program α) (P : α → Prop) : Prop :=
  ∀ clock, p.Keeps (sealing ms) (fun _ => P) clock

section
variable {α β : Type} {ms : List Message} {P P' : α → Prop} {Q : β → Prop}

theorem encloses_done {a : α} (holds : P a) : Encloses ms (.done a) P := fun _ => holds

theorem encloses_bind {p : Program α} {f : α → Program β} (first : Encloses ms p P)
    (second : ∀ a, P a → Encloses ms (f a) Q) : Encloses ms (p.bind f) Q :=
  fun clock => Program.keeps_seq (first clock) fun clock' a holds => second a holds clock'

theorem encloses_query {q : Ask} {f : q.Reply → Program β} (unsent : q.letter? = none)
    (rest : ∀ r, Encloses ms (f r) Q) : Encloses ms ((Program.query q).bind f) Q :=
  fun clock => ⟨by simp [sealing, unsent], fun r => rest r _⟩

theorem encloses_and {τ : Type} {w : Watch τ} {t : τ} {p : Program α} (encloses : Encloses ms p P)
    (known : p.Keeps w (fun _ => P') t) : Encloses ms p fun a => P a ∧ P' a := by
  intro clock
  refine Program.keeps_mono (Program.keeps_and (encloses clock) known) ?_
  rintro _ a ⟨holds, _, holds'⟩
  exact ⟨holds, holds'⟩

theorem encloses_counts {v : Trouble} {p : Program α} (keeps : p.Keeps (Trouble.watch Desk.Counts) (fun _ => P) v) :
    Encloses ms p P := by
  intro clock
  have refines : (Trouble.watch Desk.Counts).Refines (sealing ms) fun _ _ => True := by
    intro _ _ q _ counts
    refine ⟨?_, fun _ => trivial⟩
    cases q with
    | store c | draw => simp [sealing, Ask.letter?]
    | _ => exact absurd counts id
  refine Program.keeps_mono (Program.keeps_refines refines trivial keeps) ?_
  rintro _ a ⟨_, _, holds⟩
  exact holds

end

section
variable {ms : List Message}

theorem publish_encloses (key : String) (reason : Reason) {e : Envelope} {clock : List Instant}
    (sealed : Seals ms clock e) : (publish key reason e).Keeps (sealing ms) (fun _ _ => True) clock := by
  refine ⟨by simp [sealing, Ask.letter?], ?_⟩
  intro _
  refine ⟨?_, ?_⟩
  · intro l same
    obtain rfl := Option.some.inj same
    exact seals_later sealed _
  · intro taken
    cases taken with
    | true => trivial
    | false => exact encloses_query (q := .measure .publishFailure) rfl (fun _ => encloses_done trivial) _

theorem publishSingle_encloses {m : Message} (member : m ∈ ms) (reason : Reason) (detail : String) :
    Encloses ms (publishSingle m reason detail) fun _ => True := by
  intro clock
  refine ⟨by simp [sealing, Ask.letter?], ?_⟩
  intro now
  have read : now ∈ clock ++ [now] := List.mem_append_right clock (List.mem_singleton_self now)
  exact publish_encloses _ reason (.single member read reason detail)

theorem publishGroup_encloses {gs : List Message} (part : gs.Sublist ms) (reason : Reason) (detail : String) :
    Encloses ms (publishGroup gs reason detail) fun _ => True := by
  match gs with
  | [] => exact encloses_done trivial
  | [m] => exact publishSingle_encloses (part.subset (List.mem_singleton_self m)) reason detail
  | m :: n :: gs =>
    intro clock
    refine ⟨by simp [sealing, Ask.letter?], ?_⟩
    intro now
    have read : now ∈ clock ++ [now] := List.mem_append_right clock (List.mem_singleton_self now)
    exact publish_encloses _ reason (.group part read reason detail)

theorem screen_encloses {part : List Message} (among : part ⊆ ms) : Encloses ms (screen part) fun _ => True := by
  induction part with
  | nil => exact encloses_done trivial
  | cons m part ih =>
    obtain ⟨member, others⟩ := List.cons_subset.mp among
    have rest (slot : Slot) : Encloses ms ((screen part).bind fun slots => .done (slot :: slots)) fun _ => True :=
      encloses_bind (ih others) fun _ _ => encloses_done trivial
    unfold screen
    simp only [Program.bind_eq, Program.pure_eq]
    cases m.decode with
    | ok e => exact rest (.waiting ⟨m, e, none⟩)
    | error detail =>
      simp only [Program.bind_done]
      exact encloses_bind (publishSingle_encloses member .undecodable detail) fun _ _ => rest (.refused .undecodable)

theorem attempt_encloses {slots : List Slot} (fits : List.Forall₂ Slot.Of ms slots) :
    Encloses ms (attempt slots) fun result => List.Forall₂ Slot.Of ms result.1 ∧
      ∀ items, result.2 = .ok items → ∃ front, Settles ms items front := by
  have both := Program.keeps_and (attempt_trouble slots {}) (attempt_keeps fits [])
  refine encloses_counts (Program.keeps_mono both ?_)
  rintro v' ⟨slots', result⟩ ⟨-, view, -, fits', ends⟩
  refine ⟨fits', ?_⟩
  rintro items rfl
  obtain ⟨front, -, settles⟩ := ends
  exact ⟨front, settles⟩

theorem conclude_encloses {part : List Message} {items : List Item} {front : List Passed}
    (settles : Settles part items front) (among : part ⊆ ms) : Encloses ms (conclude items) fun _ => True := by
  induction settles with
  | nil => exact encloses_done trivial
  | refused h rest ih =>
    exact encloses_bind (ih (List.subset_of_cons_subset among)) fun _ _ => encloses_done trivial
  | written r readable own numbered rest ih =>
    exact encloses_bind (ih (List.subset_of_cons_subset among)) fun _ _ => encloses_done trivial
  | unknown readable own rest ih =>
    obtain ⟨member, others⟩ := List.cons_subset.mp among
    refine encloses_bind (publishSingle_encloses (own ▸ member) .unknownCampaign _) fun _ _ => ?_
    exact encloses_bind (ih others) fun _ _ => encloses_done trivial

theorem giveUp_encloses {slots : List Slot} (fits : List.Forall₂ Slot.Of ms slots) (reason : Reason)
    (f : Ledger.Fault) : Encloses ms (giveUp slots reason f) fun _ => True := by
  have messages : (slots.filterMap Slot.ticket?).map Ticket.message = readable ms := fits_readable fits
  unfold giveUp
  rw [messages]
  exact encloses_bind (publishGroup_encloses List.filter_sublist reason _) fun _ _ => encloses_done trivial

theorem settle_encloses (b : Backoff) (left n : Nat) (delay : Duration) {slots : List Slot}
    (fits : List.Forall₂ Slot.Of ms slots) : Encloses ms (settle b left n delay slots) fun _ => True := by
  have reported {p : Program (List Outcome)} (n : Nat) (encloses : Encloses ms p fun _ => True) :
      Encloses ms (p.bind fun outcomes => .done (Report.mk outcomes n)) fun _ => True :=
    encloses_bind encloses fun _ _ => encloses_done trivial
  refine settle_induction (motive := fun _ _ _ slots p => List.Forall₂ Slot.Of ms slots → Encloses ms p fun _ => True)
    ?_ left n delay slots fits
  intro left n delay slots rest follows fits
  refine encloses_bind (attempt_encloses fits) ?_
  rintro result ⟨fits', settled⟩
  have next := follows result
  generalize rest result = p at next ⊢
  cases next with
  | committed slots' items =>
    obtain ⟨front, settles⟩ := settled items rfl
    exact reported n (conclude_encloses settles (List.Subset.refl ms))
  | rejected slots' permanent | exhausted slots' transient => exact reported n (giveUp_encloses fits' _ _)
  | again slots' transient ih =>
    refine encloses_query (q := .measure .retry) rfl fun _ => ?_
    exact encloses_query (q := .wait delay) rfl fun _ => ih fits'

theorem measureAll_encloses (os : List Outcome) : Encloses ms (measureAll os) fun _ => True := by
  induction os with
  | nil => exact encloses_done trivial
  | cons o os ih => exact encloses_query (q := .measure o.measure) rfl fun _ => ih

theorem closing_encloses (os : List Outcome) : Encloses ms (closing os) fun _ => True := by
  refine encloses_bind (measureAll_encloses os) fun _ _ => ?_
  refine encloses_query (q := .current) rfl fun current => ?_
  refine encloses_query (q := .measure (.sequence current)) rfl fun _ => ?_
  exact encloses_query (q := .measure .batchDone) rfl fun _ => encloses_done trivial

end

theorem processBatch_encloses (b : Backoff) (ms : List Message) : Encloses ms (processBatch b ms) fun _ => True := by
  have closes (report : Report) :
      Encloses ms ((closing report.outcomes).bind fun _ => .done report) fun _ => True :=
    encloses_bind (closing_encloses report.outcomes) fun _ _ => encloses_done trivial
  have screened : (screen ms).Keeps Desk.watch (fun _ slots => slots = ms.map placeOf) ⟨.idle [], []⟩ :=
    Program.keeps_mono (screen_keeps ms _) fun _ _ same => same.1
  rw [processBatch_eq]
  refine encloses_bind (encloses_and (screen_encloses (List.Subset.refl ms)) screened) ?_
  rintro _ ⟨-, rfl⟩
  split
  · exact closes _
  · exact encloses_bind (settle_encloses b _ _ _ (places_fit ms)) fun report _ => closes report

/-- All letters on the way are made of messages of the batch, at instants that were read off the clock. -/
theorem letters_sealed {b : Backoff} {ms : List Message} {rest : Program Report} {xs : List Exchange}
    (course : (processBatch b ms).Leads xs rest) : ∀ e ∈ lettersIn xs, Seals ms (readingsIn xs) e := by
  intro e sent
  obtain ⟨x, member, letter⟩ := List.mem_filterMap.mp sent
  obtain ⟨ys, zs, split⟩ := List.append_of_mem member
  rw [split] at course ⊢
  have sealed := Program.allowed_next (processBatch_encloses b ms []) course e letter
  rw [track_sealing, List.nil_append] at sealed
  rw [readingsIn, List.filterMap_append]
  exact seals_later sealed _

end CampaignSettlement.Settlement
