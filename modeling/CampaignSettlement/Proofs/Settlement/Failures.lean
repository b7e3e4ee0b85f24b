import CampaignSettlement.Proofs.Settlement.Keeping

/-!
Failures that a batch meets, and what is reported of them. An attempt ends at the first call that fails and
reports nothing; a batch is given up only when an attempt has failed, and its messages are then reported in
one letter. What is said of a program holds of all its exchanges, however they were answered.
-/
namespace CampaignSettlement.Settlement

open Ledger (Fault StoreCall)
open Wire (Envelope Message)

/-- A rollback that fails changes nothing about an attempt, and does not count. -/
def failure? : Exchange → Option Fault
  | ⟨.store (.rollback _), _⟩ => none
  | ⟨.store _, .error f⟩ => some f
  | _ => none

def failuresIn (xs : List Exchange) : List Fault := xs.filterMap failure?

def Ask.letter? : Ask → Option Envelope
  | .publish _ e => some e
  | _ => none

def lettersIn (xs : List Exchange) : List Envelope := xs.filterMap fun x => x.1.letter?

/-- Reasons for which the messages of a batch are dead-lettered together. -/
def Reason.OfGroup (r : Reason) : Prop := r = .retriesExhausted ∨ r = .storeRejected

instance (r : Reason) : Decidable r.OfGroup := inferInstanceAs (Decidable (_ ∨ _))

def groupLetters (es : List Envelope) : List Envelope :=
  es.filter fun e => e.reason = Reason.retriesExhausted.name ∨ e.reason = Reason.storeRejected.name

theorem groupLetters_append (es fs : List Envelope) : groupLetters (es ++ fs) = groupLetters es ++ groupLetters fs :=
  List.filter_append ..

theorem failuresIn_append (xs ys : List Exchange) : failuresIn (xs ++ ys) = failuresIn xs ++ failuresIn ys :=
  List.filterMap_append

theorem lettersIn_append (xs ys : List Exchange) : lettersIn (xs ++ ys) = lettersIn xs ++ lettersIn ys :=
  List.filterMap_append

structure Trouble where
  failures : List Fault := []
  letters : List Envelope := []

namespace Trouble

def after (v : Trouble) (q : Ask) (r : q.Reply) : Trouble :=
  ⟨v.failures ++ (failure? ⟨q, r⟩).toList, v.letters ++ q.letter?.toList⟩

def watch (P : Ask → Prop) : Watch Trouble := ⟨fun _ q => P q, after⟩

theorem track (P : Ask → Prop) (v : Trouble) (xs : List Exchange) :
    (watch P).track v xs = ⟨v.failures ++ failuresIn xs, v.letters ++ lettersIn xs⟩ := by
  induction xs generalizing v with
  | nil => simp [Watch.track, failuresIn, lettersIn]
  | cons x xs ih =>
    have later := ih (v.after x.1 x.2)
    refine later.trans ?_
    cases failed : failure? x <;> cases sent : x.1.letter? <;>
      simp [after, failed, sent, failuresIn, lettersIn]

theorem after_quiet (v : Trouble) {q : Ask} {r : q.Reply} (fine : failure? ⟨q, r⟩ = none) (unsent : q.letter? = none) :
    v.after q r = v := by
  simp [after, fine, unsent]

theorem after_ok (v : Trouble) (c : StoreCall) (x : c.Value) : v.after (.store c) (.ok x) = v := by
  cases c <;> exact after_quiet v rfl rfl

theorem after_rollback (v : Trouble) (work : Nat) (r : Except Fault Unit) : v.after (.store (.rollback work)) r = v :=
  after_quiet v rfl rfl

theorem after_error (v : Trouble) {c : StoreCall} (other : ∀ work, c ≠ .rollback work) (f : Fault) :
    v.after (.store c) (.error f) = ⟨v.failures ++ [f], v.letters⟩ := by
  cases c with
  | rollback work => exact absurd rfl (other work)
  | _ => simp [after, failure?, Ask.letter?]

end Trouble

def failuresOf {α : Type} : Except Fault α → List Fault
  | .ok _ => []
  | .error f => [f]

def Attempts {α β : Type} (v : Trouble) (v' : Trouble) (result : α × Except Fault β) : Prop :=
  v' = ⟨v.failures ++ failuresOf result.2, v.letters⟩

theorem attempts_on {α β : Type} (v : Trouble) (a : α) (b : β) : Attempts v v (a, .ok b) := by
  simp [Attempts, failuresOf]

theorem attempts_map {α β γ : Type} (v : Trouble) {a : α} (result : Except Fault β) (f : β → γ) :
    Attempts v ⟨v.failures ++ failuresOf result, v.letters⟩ (a, result.map f) := by
  cases result <;> rfl

def Within : Ask → Prop
  | .store (.known ..) | .store (.decrement ..) | .store (.append ..) | .draw => True
  | _ => False

theorem within_counts {q : Ask} (h : Within q) : Desk.Counts q := by
  cases q with
  | store c | draw => trivial
  | _ => exact absurd h id

theorem number_trouble (t : Ticket) (v : Trouble) :
    t.number.Keeps (Trouble.watch Within) (fun v' _ => v' = v) v := by
  unfold Ticket.number
  split
  · rfl
  · exact ⟨trivial, fun _ => v.after_quiet rfl rfl⟩

theorem settleTicket_trouble (work : Nat) (t : Ticket) (v : Trouble) :
    (settleTicket work t).Keeps (Trouble.watch Within) (Attempts v) v := by
  unfold settleTicket
  simp only [Program.bind_eq, Program.pure_eq]
  refine ⟨trivial, ?_⟩
  intro found
  match found with
  | .error f => exact v.after_error (by simp) f
  | .ok known =>
    rw [show (Trouble.watch Within).after v _ _ = v from v.after_ok (.known work t.event.campaign) known]
    cases known with
    | false => exact attempts_on v _ _
    | true =>
      refine ⟨trivial, ?_⟩
      intro taken
      match taken with
      | .error f => exact v.after_error (by simp) f
      | .ok taken =>
        rw [show (Trouble.watch Within).after v _ _ = v from v.after_ok (.decrement work t.event.campaign) taken]
        apply Program.keeps_seq (number_trouble t v)
        intro _ n same
        subst same
        refine ⟨trivial, ?_⟩
        intro id
        match id with
        | .error f => exact Trouble.after_error _ (by simp) f
        | .ok id =>
          refine (Trouble.after_ok _ (.append work _) id).trans ?_
          exact attempts_on _ () ()

theorem apply_trouble (work : Nat) (slots : List Slot) (v : Trouble) :
    (apply work slots).Keeps (Trouble.watch Within) (Attempts v) v := by
  induction slots generalizing v with
  | nil => exact attempts_on v _ _
  | cons slot slots ih =>
    unfold apply
    cases slot with
    | refused r =>
      simp only [Program.bind_eq, Program.pure_eq]
      refine Program.keeps_seq (ih v) ?_
      rintro _ ⟨slots', result⟩ rfl
      exact attempts_map v result _
    | waiting t =>
      simp only [Program.bind_eq, Program.pure_eq]
      refine Program.keeps_seq (settleTicket_trouble work t v) ?_
      rintro _ ⟨t', result⟩ rfl
      cases result with
      | error f => rfl
      | ok item =>
        rw [failuresOf, List.append_nil]
        refine Program.keeps_seq (ih v) ?_
        rintro _ ⟨slots', result⟩ rfl
        exact attempts_map v result _

theorem trouble_weaken {α : Type} {P Q : Ask → Prop} {post : Trouble → α → Prop} {p : Program α} {v : Trouble}
    (h : p.Keeps (Trouble.watch P) post v) (weaker : ∀ q, P q → Q q) : p.Keeps (Trouble.watch Q) post v := by
  have refines : (Trouble.watch P).Refines (Trouble.watch Q) Eq := by
    rintro u _ q rfl allowed
    exact ⟨weaker q allowed, fun _ => rfl⟩
  refine Program.keeps_mono (Program.keeps_refines refines rfl h) ?_
  rintro u a ⟨_, rfl, known⟩
  exact known

theorem attempt_trouble (slots : List Slot) (v : Trouble) :
    (attempt slots).Keeps (Trouble.watch Desk.Counts) (Attempts v) v := by
  unfold attempt
  simp only [Program.bind_eq, Program.pure_eq]
  refine ⟨trivial, ?_⟩
  intro begun
  match begun with
  | .error f => exact v.after_error (by simp) f
  | .ok work =>
    simp only [Program.bind_done, show (Trouble.watch Desk.Counts).after v _ _ = v from v.after_ok .begin work]
    refine Program.keeps_seq (trouble_weaken (apply_trouble work slots v) fun _ => within_counts) ?_
    rintro _ ⟨slots', result⟩ rfl
    cases result with
    | error f =>
      refine ⟨trivial, ?_⟩
      intro answer
      exact Trouble.after_rollback _ work answer
    | ok items =>
      rw [failuresOf, List.append_nil]
      refine ⟨trivial, ?_⟩
      intro answer
      match answer with
      | .error f => exact v.after_error (by simp) f
      | .ok () => exact (v.after_ok (.commit work) ()).trans (attempts_on v () ())

def Aside : Ask → Prop
  | .store _ | .draw | .wait _ | .measure .retry => False
  | _ => True

structure Reports (e : Envelope) (reason : Reason) (ms : List Message) : Prop where
  reason : e.reason = reason.name
  carried : e.carried = ms.map Message.text
  count : e.count = ms.length

theorem keeps_beside {α : Type} {P : Ask → Prop} {post : Trouble → α → Prop} {q : Ask} {f : q.Reply → Program α}
    {v : Trouble} (allowed : P q) (fine : ∀ r, failure? ⟨q, r⟩ = none) (unsent : q.letter? = none)
    (rest : ∀ r, (f r).Keeps (Trouble.watch P) post v) :
    ((Program.query q).bind f).Keeps (Trouble.watch P) post v := by
  refine ⟨allowed, ?_⟩
  intro r
  rw [show (Trouble.watch P).after v q r = v from v.after_quiet (fine r) unsent]
  exact rest r

theorem aside_fine {q : Ask} (aside : Aside q) (r : q.Reply) : failure? ⟨q, r⟩ = none := by
  cases q with
  | store c => exact absurd aside id
  | _ => rfl

theorem aside_failures {α : Type} {post : Trouble → α → Prop} {p rest : Program α} {xs : List Exchange} {v : Trouble}
    (h : p.Keeps (Trouble.watch Aside) post v) (course : p.Leads xs rest) : failuresIn xs = [] := by
  refine List.filterMap_eq_nil_iff.mpr ?_
  intro x member
  obtain ⟨t, aside⟩ := Program.asked_allowed h course x member
  exact aside_fine aside x.2

theorem aside_quiet {α : Type} {post : Trouble → α → Prop} {q : Ask} {f : q.Reply → Program α} {v : Trouble}
    (aside : Aside q) (unsent : q.letter? = none) (rest : ∀ r, (f r).Keeps (Trouble.watch Aside) post v) :
    ((Program.query q).bind f).Keeps (Trouble.watch Aside) post v :=
  keeps_beside aside (aside_fine aside) unsent rest

theorem publish_trouble (key : String) (reason : Reason) (e : Envelope) (v : Trouble) :
    (publish key reason e).Keeps (Trouble.watch Aside) (fun v' _ => v' = ⟨v.failures, v.letters ++ [e]⟩) v := by
  refine aside_quiet (q := .measure (.letters reason e.count)) trivial rfl ?_
  intro _
  refine ⟨trivial, ?_⟩
  intro taken
  have sent : (Trouble.watch Aside).after v (.publish key e) taken = ⟨v.failures, v.letters ++ [e]⟩ :=
    congrArg (Trouble.mk · _) (List.append_nil _)
  rw [sent]
  cases taken with
  | true => rfl
  | false => exact aside_quiet (q := .measure .publishFailure) trivial rfl fun _ => rfl

theorem publishSingle_trouble (m : Message) (reason : Reason) (detail : String) (v : Trouble) :
    (publishSingle m reason detail).Keeps (Trouble.watch Aside)
      (fun v' _ => ∃ e, Reports e reason [m] ∧ v' = ⟨v.failures, v.letters ++ [e]⟩) v := by
  refine aside_quiet (q := .now) trivial rfl ?_
  intro now
  refine Program.keeps_mono (publish_trouble _ _ _ v) ?_
  rintro _ _ rfl
  exact ⟨_, ⟨rfl, rfl, rfl⟩, rfl⟩

theorem publishGroup_trouble {ms : List Message} (some_message : ms ≠ []) (reason : Reason) (detail : String)
    (v : Trouble) :
    (publishGroup ms reason detail).Keeps (Trouble.watch Aside)
      (fun v' _ => ∃ e, Reports e reason ms ∧ v' = ⟨v.failures, v.letters ++ [e]⟩) v := by
  match ms with
  | [] => exact absurd rfl some_message
  | [m] => exact publishSingle_trouble m reason detail v
  | m :: n :: ms =>
    refine aside_quiet (q := .now) trivial rfl ?_
    intro now
    refine Program.keeps_mono (publish_trouble _ _ _ v) ?_
    rintro _ _ rfl
    exact ⟨_, ⟨rfl, rfl, by simp [Envelope.count, Envelope.group]⟩, rfl⟩

def Sends {α : Type} (reason : Reason) (v : Trouble) (v' : Trouble) (_ : α) : Prop :=
  ∃ ls : List Envelope, (∀ e ∈ ls, e.reason = reason.name) ∧ v' = ⟨v.failures, v.letters ++ ls⟩

theorem sends_none {α : Type} (reason : Reason) (v : Trouble) (a : α) : Sends reason v v a :=
  ⟨[], by simp, by rw [List.append_nil]⟩

theorem sends_more {α β : Type} {reason : Reason} {ms : List Message} {v v' : Trouble} {e : Envelope} {a : α} (b : β)
    (first : Reports e reason ms) (later : Sends reason ⟨v.failures, v.letters ++ [e]⟩ v' a) :
    Sends reason v v' b := by
  obtain ⟨ls, only, rfl⟩ := later
  refine ⟨e :: ls, ?_, by simp⟩
  intro l member
  rcases List.mem_cons.mp member with rfl | later
  · exact first.reason
  · exact only l later

theorem screen_trouble (ms : List Message) (v : Trouble) :
    (screen ms).Keeps (Trouble.watch Aside) (Sends .undecodable v) v := by
  induction ms generalizing v with
  | nil => exact sends_none _ v _
  | cons m ms ih =>
    unfold screen
    simp only [Program.bind_eq, Program.pure_eq]
    cases m.decode with
    | ok e =>
      simp only [Program.bind_done]
      refine Program.keeps_seq (ih v) ?_
      intro v' slots sends
      exact sends
    | error detail =>
      simp only [Program.bind_done]
      refine Program.keeps_seq (publishSingle_trouble m .undecodable detail v) ?_
      rintro _ _ ⟨e, first, rfl⟩
      refine Program.keeps_seq (ih _) ?_
      intro v' slots later
      exact sends_more _ first later

theorem conclude_trouble (items : List Item) (v : Trouble) :
    (conclude items).Keeps (Trouble.watch Aside)
      (fun v' outcomes => Sends .unknownCampaign v v' () ∧ outcomes = items.map Item.outcome) v := by
  induction items generalizing v with
  | nil => exact ⟨sends_none _ v (), rfl⟩
  | cons item items ih =>
    cases item with
    | refused r | settled r n =>
      refine Program.keeps_seq (ih v) ?_
      rintro v' _ ⟨sends, rfl⟩
      exact ⟨sends, rfl⟩
    | unknown t =>
      refine Program.keeps_seq (publishSingle_trouble t.message .unknownCampaign _ v) ?_
      rintro _ _ ⟨e, first, rfl⟩
      refine Program.keeps_seq (ih _) ?_
      rintro v' _ ⟨later, rfl⟩
      exact ⟨sends_more _ first later, rfl⟩

theorem measureAll_trouble (outcomes : List Outcome) (v : Trouble) :
    (measureAll outcomes).Keeps (Trouble.watch Aside) (fun v' _ => v' = v) v := by
  induction outcomes with
  | nil => rfl
  | cons o outcomes ih =>
    have aside : Aside (.measure o.measure) := by cases o <;> trivial
    exact aside_quiet aside rfl fun _ => ih

def readable (ms : List Message) : List Message := ms.filter fun m => m.decode.toOption.isSome

theorem fits_readable {ms : List Message} {slots : List Slot} (fits : List.Forall₂ Slot.Of ms slots) :
    (waitingOf slots).map Ticket.message = readable ms := by
  induction fits with
  | nil => rfl
  | cons here rest ih =>
    cases here with
    | refused h =>
      have none : Slot.ticket? (.refused .undecodable) = none := rfl
      simpa [waitingOf, readable, none, h, Except.toOption] using ih
    | @waiting t decoded own =>
      have ticket : Slot.ticket? (.waiting t) = some t := rfl
      simpa [waitingOf, readable, ticket, decoded, Except.toOption, own] using ih

theorem settles_alone {ms : List Message} {items : List Item} {front : List Passed} (settles : Settles ms items front)
    {reason : Reason} (member : .deadLettered reason ∈ items.map Item.outcome) : ¬ reason.OfGroup := by
  induction settles with
  | nil => cases member
  | refused h rest ih =>
    rcases List.mem_cons.mp member with same | later
    · obtain rfl := Outcome.deadLettered.inj same
      decide
    · exact ih later
  | written r readable own numbered rest ih =>
    rcases List.mem_cons.mp member with same | later
    · cases same
    · exact ih later
  | unknown readable own rest ih =>
    rcases List.mem_cons.mp member with same | later
    · obtain rfl := Outcome.deadLettered.inj same
      decide
    · exact ih later

theorem givenUp_together {ms : List Message} {slots : List Slot} (fits : List.Forall₂ Slot.Of ms slots)
    {given reason : Reason} (failed : reason.OfGroup) (member : .deadLettered reason ∈ slots.map (Slot.givenUp given)) :
    reason = given ∧ readable ms ≠ [] := by
  rw [← fits_readable fits]
  induction fits with
  | nil => cases member
  | cons here rest ih =>
    rcases List.mem_cons.mp member with same | later
    · cases here with
      | refused h =>
        obtain rfl := Outcome.deadLettered.inj same
        exact absurd failed (by decide)
      | waiting readable own => exact ⟨Outcome.deadLettered.inj same, by simp [waitingOf, Slot.ticket?]⟩
    · obtain ⟨same, some_waiting⟩ := ih later
      refine ⟨same, ?_⟩
      cases here with
      | refused h => exact some_waiting
      | waiting readable own => simp [waitingOf, Slot.ticket?]

theorem givenUp_some (reason : Reason) {ms : List Message} {slots : List Slot} (fits : List.Forall₂ Slot.Of ms slots)
    (some_readable : readable ms ≠ []) : .deadLettered reason ∈ slots.map (Slot.givenUp reason) := by
  rw [← fits_readable fits] at some_readable
  have some_waiting : waitingOf slots ≠ [] := fun none => some_readable (congrArg (List.map Ticket.message) none)
  obtain ⟨t, waiting⟩ := List.exists_mem_of_ne_nil _ some_waiting
  obtain ⟨slot, member, ticket⟩ := List.mem_filterMap.mp waiting
  cases slot with
  | refused r => cases ticket
  | waiting u => exact List.mem_map_of_mem member

/-- How the attempts at a batch end, of which `left` more may follow the one of number `n`. -/
inductive Closes (ms : List Message) (left n : Nat) (v : Trouble) : Trouble → Report → Prop
  | committed {items : List Item} {front : List Passed} {fs : List Fault} {ls : List Envelope}
      (settles : Settles ms items front) (transient : ∀ f ∈ fs, f.isTransient) (few : fs.length ≤ left)
      (unknown : ∀ e ∈ ls, e.reason = Reason.unknownCampaign.name) :
      Closes ms left n v ⟨v.failures ++ fs, v.letters ++ ls⟩ ⟨items.map Item.outcome, n + fs.length⟩
  | givenUp {slots : List Slot} {reason : Reason} {f : Fault} {fs : List Fault} {e : Envelope}
      (fits : List.Forall₂ Slot.Of ms slots) (failed : reason.OfGroup)
      (many : (∀ g ∈ f :: fs, g.isTransient) → left < (f :: fs).length) (letter : Reports e reason (readable ms)) :
      Closes ms left n v ⟨v.failures ++ f :: fs, v.letters ++ [e]⟩ ⟨slots.map (Slot.givenUp reason), n + fs.length⟩

theorem closes_later {ms : List Message} {left n : Nat} {v v' : Trouble} {report : Report} {f : Fault}
    (transient : f.isTransient) (later : Closes ms left (n + 1) ⟨v.failures ++ [f], v.letters⟩ v' report) :
    Closes ms (left + 1) n v v' report := by
  cases later with
  | @committed items front fs ls settles others few unknown =>
    have number : n + 1 + fs.length = n + (f :: fs).length := by rw [List.length_cons]; omega
    rw [number, List.append_assoc]
    refine .committed settles ?_ ?_ unknown
    · simpa [transient] using others
    · simpa using few
  | @givenUp slots reason g fs e fits failed many letter =>
    have number : n + 1 + fs.length = n + (g :: fs).length := by rw [List.length_cons]; omega
    rw [number, List.append_assoc]
    refine .givenUp fits failed ?_ letter
    intro all
    have more := many fun h member => all h (List.mem_cons_of_mem f member)
    exact Nat.succ_lt_succ more

theorem attempt_tried {ms : List Message} {slots : List Slot} (fits : List.Forall₂ Slot.Of ms slots) (v : Trouble) :
    (attempt slots).Keeps (Trouble.watch fun _ => True)
      (fun v' result => Attempts v v' result ∧ List.Forall₂ Slot.Of ms result.1 ∧
        ∀ items, result.2 = .ok items → ∃ front, Settles ms items front) v := by
  have both := Program.keeps_and (attempt_trouble slots v) (attempt_keeps fits [])
  refine Program.keeps_mono (trouble_weaken both fun _ _ => trivial) ?_
  rintro v' ⟨slots', result⟩ ⟨attempts, view, -, fits', ends⟩
  refine ⟨attempts, fits', ?_⟩
  rintro items rfl
  obtain ⟨front, -, settles⟩ := ends
  exact ⟨front, settles⟩

theorem conclude_closes {ms : List Message} {items : List Item} {front : List Passed}
    (settles : Settles ms items front) (left n : Nat) (v : Trouble) :
    ((conclude items).bind fun outcomes => .done (Report.mk outcomes n)).Keeps (Trouble.watch fun _ => True)
      (Closes ms left n v) v := by
  refine Program.keeps_seq (trouble_weaken (conclude_trouble items v) fun _ _ => trivial) ?_
  rintro v' _ ⟨⟨ls, only, rfl⟩, rfl⟩
  have closes : Closes ms left n v ⟨v.failures ++ [], v.letters ++ ls⟩
      ⟨items.map Item.outcome, n + ([] : List Fault).length⟩ := .committed settles (by simp) (Nat.zero_le _) only
  simpa using closes

theorem giveUp_closes {ms : List Message} {slots : List Slot} (fits : List.Forall₂ Slot.Of ms slots)
    (some_readable : readable ms ≠ []) {reason : Reason} (failed : reason.OfGroup) {f : Fault} {left : Nat}
    (many : f.isTransient → left = 0) (n : Nat) (v : Trouble) :
    ((giveUp slots reason f).bind fun outcomes => .done (Report.mk outcomes n)).Keeps (Trouble.watch fun _ => True)
      (Closes ms left n v) ⟨v.failures ++ [f], v.letters⟩ := by
  have messages : (slots.filterMap Slot.ticket?).map Ticket.message = readable ms := fits_readable fits
  unfold giveUp
  rw [messages]
  simp only [Program.bind_eq, Program.pure_eq, Program.bind_assoc, Program.bind_done]
  have letter := publishGroup_trouble some_readable reason f.message ⟨v.failures ++ [f], v.letters⟩
  refine Program.keeps_seq (trouble_weaken letter fun _ _ => trivial) ?_
  rintro _ _ ⟨e, letter, rfl⟩
  refine .givenUp fits failed ?_ letter
  intro transient
  have none := many (transient f (by simp))
  simp [none]

theorem settle_trouble (b : Backoff) {ms : List Message} (some_readable : readable ms ≠ []) (left n : Nat)
    (delay : Duration) {slots : List Slot} (fits : List.Forall₂ Slot.Of ms slots) (v : Trouble) :
    (settle b left n delay slots).Keeps (Trouble.watch fun _ => True) (Closes ms left n v) v := by
  -- each attempt that fails for the time being adds one failure, and the next goes on from there
  refine settle_induction (motive := fun left n _ slots p => List.Forall₂ Slot.Of ms slots → ∀ v,
    p.Keeps (Trouble.watch fun _ => True) (Closes ms left n v) v) ?_ left n delay slots fits v
  intro left n delay slots rest follows fits v
  refine Program.keeps_seq (attempt_tried fits v) ?_
  rintro _ result ⟨rfl, fits', settled⟩
  have next := follows result
  generalize rest result = p at next ⊢
  cases next with
  | committed slots' items =>
    obtain ⟨front, settles⟩ := settled items rfl
    rw [failuresOf, List.append_nil]
    exact conclude_closes settles left n v
  | rejected slots' permanent => exact giveUp_closes fits' some_readable (Or.inr rfl) (by simp [permanent]) n v
  | exhausted slots' transient => exact giveUp_closes fits' some_readable (Or.inl rfl) (fun _ => rfl) n v
  | @again left slots' f transient later ih =>
    refine keeps_beside (q := .measure .retry) trivial (fun _ => rfl) rfl fun _ => ?_
    refine keeps_beside (q := .wait delay) trivial (fun _ => rfl) rfl fun _ => ?_
    exact Program.keeps_mono (ih fits' ⟨v.failures ++ [f], v.letters⟩) fun _ _ => closes_later transient

/-- How a batch ends when nothing is said of the answers: its transaction is committed, or its messages that can be
read are given up and reported in one letter, which needs a failure. A batch without such a message is not attempted. -/
inductive Finishes (b : Backoff) (ms : List Message) : Trouble → Report → Prop
  | attempted {ls : List Envelope} {v' : Trouble} {report : Report} (some_readable : readable ms ≠ [])
      (refused : ∀ e ∈ ls, e.reason = Reason.undecodable.name) (closes : Closes ms b.retries 1 ⟨[], ls⟩ v' report) :
      Finishes b ms v' report
  | unread {ls : List Envelope} (none_readable : readable ms = [])
      (refused : ∀ e ∈ ls, e.reason = Reason.undecodable.name) :
      Finishes b ms ⟨[], ls⟩ ⟨(ms.map placeOf).map (Slot.givenUp .storeRejected), 0⟩

theorem closing_trouble (outcomes : List Outcome) (v : Trouble) :
    (closing outcomes).Keeps (Trouble.watch Aside) (fun v' _ => v' = v) v := by
  refine Program.keeps_seq (measureAll_trouble outcomes v) ?_
  rintro _ _ rfl
  refine aside_quiet (q := .current) trivial rfl ?_
  intro current
  refine aside_quiet (q := .measure (.sequence current)) trivial rfl ?_
  intro _
  exact ⟨trivial, fun _ => Trouble.after_quiet _ rfl rfl⟩

theorem unread_trouble (b : Backoff) {ms : List Message} (none_readable : readable ms = []) :
    (processBatch b ms).Keeps (Trouble.watch Aside) (fun _ report => report.attempts = 0) {} := by
  have messages : ((ms.map placeOf).filterMap Slot.ticket?).map Ticket.message = readable ms :=
    fits_readable (places_fit ms)
  have empty : (ms.map placeOf).filterMap Slot.ticket? = [] := List.map_eq_nil_iff.mp (messages.trans none_readable)
  rw [processBatch_eq]
  refine Program.keeps_seq (Program.keeps_and (screen_trouble ms {}) (screen_keeps ms ⟨.idle [], []⟩)) ?_
  rintro v slots ⟨-, _, rfl, -⟩
  simp only [empty, List.isEmpty_nil, if_true, Program.bind_done]
  exact Program.keeps_seq (closing_trouble _ v) fun _ _ _ => rfl

/-- What comes of a batch in view of the failures that it meets, whatever the answers are. -/
theorem processBatch_trouble (b : Backoff) (ms : List Message) :
    (processBatch b ms).Keeps (Trouble.watch fun _ => True) (Finishes b ms) {} := by
  have fits := places_fit ms
  have closes {v : Trouble} {report : Report} (finishes : Finishes b ms v report) :
      ((closing report.outcomes).bind fun _ => .done report).Keeps (Trouble.watch fun _ => True) (Finishes b ms) v := by
    refine Program.keeps_seq (trouble_weaken (closing_trouble report.outcomes v) fun _ _ => trivial) ?_
    rintro _ _ rfl
    exact finishes
  rw [processBatch_eq]
  have screened := Program.keeps_and (screen_trouble ms {}) (screen_keeps ms ⟨.idle [], []⟩)
  refine Program.keeps_seq (trouble_weaken screened fun _ _ => trivial) ?_
  rintro _ slots ⟨⟨ls, refused, rfl⟩, _, rfl, -⟩
  have messages : (waitingOf (ms.map placeOf)).map Ticket.message = readable ms := fits_readable fits
  split
  · next none =>
    have empty : waitingOf (ms.map placeOf) = [] := List.isEmpty_iff.mp none
    exact closes (.unread (by rw [← messages, empty]; rfl) refused)
  · next some =>
    have some_readable : readable ms ≠ [] := by
      rw [← messages]
      simpa [waitingOf] using some
    refine Program.keeps_seq (settle_trouble b some_readable b.retries 1 b.initial fits _) ?_
    intro v report closed
    exact closes (.attempted some_readable refused closed)

theorem batch_finishes {b : Backoff} {ms : List Message} {xs : List Exchange} {report : Report}
    (course : (processBatch b ms).Leads xs (.done report)) : Finishes b ms ⟨failuresIn xs, lettersIn xs⟩ report := by
  have finishes := Program.keeps_leads (processBatch_trouble b ms) course
  rw [Trouble.track] at finishes
  exact finishes

end CampaignSettlement.Settlement
