import Mathlib.Data.List.Forall2
import CampaignSettlement.Proofs.Settlement.Desk

/-!
Settlement of a batch keeps to its desk. Whatever the answers are, the store is asked exactly what is due;
at the end the outcomes of the messages, the entries of the committed transaction and the dead letters
that were posted fit together as `Ends` says.
-/
namespace CampaignSettlement.Settlement

open Ledger (Entry Fault Result)
open Wire (Envelope Message)

/-- The place of a message in a batch, before or after it has drawn a sequence. -/
inductive Slot.Of : Message → Slot → Prop
  | refused {m : Message} {detail : String} (h : m.decode = .error detail) : Of m (.refused .undecodable)
  | waiting {m : Message} {t : Ticket} (readable : m.decode = .ok t.event) (own : t.message = m) :
      Of m (.waiting t)

/-- The items and the passed messages of a transaction in which all calls succeeded. -/
inductive Settles : List Message → List Item → List Passed → Prop
  | nil : Settles [] [] []
  | refused {m ms items front} {detail : String} (h : m.decode = .error detail) (rest : Settles ms items front) :
      Settles (m :: ms) (.refused .undecodable :: items) front
  | written {m ms items front} {t : Ticket} {n : Int} (r : Result) (readable : m.decode = .ok t.event)
      (own : t.message = m) (numbered : t.sequence = some n) (rest : Settles ms items front) :
      Settles (m :: ms) (.settled r n :: items) (⟨t, some (t.entry r n)⟩ :: front)
  | unknown {m ms items front} {t : Ticket} (readable : m.decode = .ok t.event) (own : t.message = m)
      (rest : Settles ms items front) : Settles (m :: ms) (.unknown t :: items) (⟨t, none⟩ :: front)

def waitingOf (slots : List Slot) : List Ticket := slots.filterMap Slot.ticket?

def ticketOf (m : Message) : Option Ticket := m.decode.toOption.map fun e => ⟨m, e, none⟩

def Item.outcome : Item → Outcome
  | .refused r => .deadLettered r
  | .settled r n => .settled r n
  | .unknown _ => .deadLettered .unknownCampaign

def Item.posted : Item → List Posted
  | .unknown t => [.of t.message .unknownCampaign]
  | _ => []

def refusals (ms : List Message) : List Posted :=
  (ms.filter fun m => m.decode.toOption.isNone).map (Posted.of · .undecodable)

/-- How a batch can end: its transaction was committed, or its messages were given up for one reason. -/
inductive Ends (ms : List Message) : View → List Outcome → Prop
  | committed {front items} (settles : Settles ms items front) :
      Ends ms ⟨.settled front, refusals ms ++ items.flatMap Item.posted⟩ (items.map Item.outcome)
  | givenUp {slots} (reason : Reason) (failed : reason = .retriesExhausted ∨ reason = .storeRejected)
      (fits : List.Forall₂ Slot.Of ms slots) :
      Ends ms ⟨.idle (waitingOf slots), refusals ms ++ (waitingOf slots).map fun t => .of t.message reason⟩
        (slots.map (Slot.givenUp reason))

theorem ends_closed {ms : List Message} {v : View} {os : List Outcome} (ends : Ends ms v os) :
    v.desk.work? = none := by
  cases ends <;> rfl

def Silent (q : Ask) : Prop := ¬ Desk.Counts q ∧ ¬ Desk.Foreign q ∧ q.posted = []

theorem watch_silent (v : View) (q : Ask) (h : Silent q) :
    Desk.watch.allows v q ∧ ∀ r, Desk.watch.after v q r = v := by
  refine ⟨⟨desk_allows_quiet v.desk h.1, h.2.1⟩, ?_⟩
  intro r
  simp only [Desk.watch, desk_after_quiet v.desk h.1, h.2.2, List.append_nil]

theorem keeps_silent {β : Type} {post : View → β → Prop} {q : Ask} {f : q.Reply → Program β} {v : View}
    (h : Silent q) (rest : ∀ r, (f r).Keeps Desk.watch post v) :
    ((Program.query q).bind f).Keeps Desk.watch post v := by
  refine ⟨(watch_silent v q h).1, ?_⟩
  intro r
  rw [(watch_silent v q h).2]
  exact rest r

theorem watch_store (d : Desk) (posted : List Posted) (c : Ledger.StoreCall) (r : c.Reply) :
    Desk.watch.after ⟨d, posted⟩ (.store c) r = ⟨d.after (.store c) r, posted⟩ :=
  congrArg (View.mk _) (List.append_nil posted)

theorem watch_publish (v : View) (key : String) (e : Envelope) (taken : Bool) :
    Desk.watch.after v (.publish key e) taken = ⟨v.desk, v.posted ++ (Ask.publish key e).posted⟩ :=
  congrArg (View.mk · _) (desk_after_quiet v.desk (q := .publish key e) id taken)

theorem publish_keeps (key : String) (reason : Reason) (e : Envelope) (v : View) :
    (publish key reason e).Keeps Desk.watch
      (fun v' _ => v' = ⟨v.desk, v.posted ++ (Ask.publish key e).posted⟩) v := by
  refine keeps_silent (q := .measure (.letters reason e.count)) ⟨id, id, rfl⟩ ?_
  intro _
  refine ⟨⟨desk_allows_quiet _ id, id⟩, ?_⟩
  intro taken
  rw [watch_publish]
  cases taken with
  | true => rfl
  | false => exact keeps_silent (q := .measure .publishFailure) ⟨id, id, rfl⟩ fun _ => rfl

theorem publishSingle_keeps (m : Message) (reason : Reason) (detail : String) (v : View) :
    (publishSingle m reason detail).Keeps Desk.watch
      (fun v' _ => v' = ⟨v.desk, v.posted ++ [Posted.of m reason]⟩) v :=
  keeps_silent (q := .now) ⟨id, id, rfl⟩ fun _ => publish_keeps _ _ _ v

theorem publishGroup_keeps (ms : List Message) (reason : Reason) (detail : String) (v : View) :
    (publishGroup ms reason detail).Keeps Desk.watch
      (fun v' _ => v' = ⟨v.desk, v.posted ++ ms.map (Posted.of · reason)⟩) v := by
  match ms with
  | [] => simp [publishGroup]
  | [m] => exact publishSingle_keeps m reason detail v
  | m :: n :: ms =>
    refine keeps_silent (q := .now) ⟨id, id, rfl⟩ ?_
    intro now
    refine Program.keeps_mono (publish_keeps _ _ _ v) ?_
    intro v' _ same
    rw [same]
    simp [Ask.posted, Envelope.carried, Envelope.group, Posted.of]

def placeOf (m : Message) : Slot :=
  match m.decode with
  | .ok e => .waiting ⟨m, e, none⟩
  | .error _ => .refused .undecodable

theorem placeOf_fits (m : Message) : Slot.Of m (placeOf m) := by
  unfold placeOf
  split
  · next e h => exact .waiting h rfl
  · next detail h => exact .refused h

theorem waitingOf_places (ms : List Message) : waitingOf (ms.map placeOf) = ms.filterMap ticketOf := by
  simp only [waitingOf, List.filterMap_map]
  congr 1
  funext m
  simp only [Function.comp_apply, placeOf, ticketOf]
  cases m.decode <;> rfl

theorem screen_keeps (ms : List Message) (v : View) :
    (screen ms).Keeps Desk.watch
      (fun v' slots => slots = ms.map placeOf ∧ v' = ⟨v.desk, v.posted ++ refusals ms⟩) v := by
  induction ms generalizing v with
  | nil => simp [screen, refusals]
  | cons m ms ih =>
    unfold screen
    simp only [Program.bind_eq, Program.pure_eq]
    cases h : m.decode with
    | ok e =>
      simp only [Program.bind_done]
      apply Program.keeps_seq (ih v)
      intro v' slots same
      obtain ⟨rfl, rfl⟩ := same
      have place : placeOf m = .waiting ⟨m, e, none⟩ := by simp only [placeOf, h]
      simp [place, refusals, h, Except.toOption]
    | error detail =>
      simp only [Program.bind_done]
      apply Program.keeps_seq (publishSingle_keeps m .undecodable detail v)
      intro v' _ same
      subst same
      apply Program.keeps_seq (ih _)
      intro v' slots same
      obtain ⟨rfl, rfl⟩ := same
      have place : placeOf m = .refused .undecodable := by simp only [placeOf, h]
      simp [place, refusals, h, Except.toOption]

theorem number_keeps (work : Nat) (t : Ticket) (r : Result) (front : List Passed) (back : List Ticket)
    (posted : List Posted) :
    t.number.Keeps Desk.watch
      (fun v n => v = ⟨.opened work front (.writing r) ({ t with sequence := some n } :: back), posted⟩)
      ⟨.opened work front (.writing r) (t :: back), posted⟩ := by
  unfold Ticket.number
  cases drawn : t.sequence with
  | some n =>
    have same : { t with sequence := some n } = t := by rw [← drawn]
    simp only [Program.pure_eq, Program.keeps_done, same]
  | none => exact ⟨⟨fun _ => .draw r back drawn, id⟩, fun n => congrArg (View.mk _) (List.append_nil posted)⟩

inductive Passes (t : Ticket) : Item → Option Entry → Prop
  | written (r : Result) {n : Int} (numbered : t.sequence = some n) : Passes t (.settled r n) (some (t.entry r n))
  | unknown : Passes t (.unknown t) none

theorem settleTicket_keeps (work : Nat) (t : Ticket) (front : List Passed) (back : List Ticket)
    (posted : List Posted) :
    (settleTicket work t).Keeps Desk.watch
      (fun v result => v.posted = posted ∧ result.1.message = t.message ∧ result.1.event = t.event ∧
        match result.2 with
        | .error _ => ∃ held, v.desk = .opened work front (.failing held) (result.1 :: back)
        | .ok item => ∃ entry, v.desk = .opened work (front ++ [⟨result.1, entry⟩]) .looking back ∧
          Passes result.1 item entry)
      ⟨.opened work front .looking (t :: back), posted⟩ := by
  unfold settleTicket
  simp only [Program.bind_eq, Program.pure_eq]
  refine ⟨⟨fun _ => .look t back, id⟩, ?_⟩
  intro found
  rw [watch_store]
  match found with
  | .error f => exact ⟨rfl, rfl, rfl, _, rfl⟩
  | .ok false => exact ⟨rfl, rfl, rfl, none, rfl, .unknown⟩
  | .ok true =>
    refine ⟨⟨fun _ => .take t back, id⟩, ?_⟩
    intro taken
    rw [watch_store]
    match taken with
    | .error f => exact ⟨rfl, rfl, rfl, _, rfl⟩
    | .ok taken =>
      simp only [Program.bind_done]
      apply Program.keeps_seq (number_keeps work t _ front back posted)
      intro v n same
      subst same
      refine ⟨⟨fun _ => .write _ back rfl, id⟩, ?_⟩
      intro id
      rw [watch_store]
      match id with
      | .error f => exact ⟨rfl, rfl, rfl, _, rfl⟩
      | .ok id => exact ⟨rfl, rfl, rfl, _, rfl, .written _ rfl⟩

theorem apply_keeps (work : Nat) {ms : List Message} {slots : List Slot} (fits : List.Forall₂ Slot.Of ms slots)
    (front : List Passed) (posted : List Posted) :
    (apply work slots).Keeps Desk.watch
      (fun v result => v.posted = posted ∧ List.Forall₂ Slot.Of ms result.1 ∧
        match result.2 with
        | .error _ => ∃ passed held back, v.desk = .opened work (front ++ passed) (.failing held) back ∧
          waitingOf result.1 = passed.map Passed.ticket ++ back
        | .ok items => ∃ passed, v.desk = .opened work (front ++ passed) .looking [] ∧ Settles ms items passed ∧
          waitingOf result.1 = passed.map Passed.ticket)
      ⟨.opened work front .looking (waitingOf slots), posted⟩ := by
  -- what has been passed joins the front, so the induction is for every front
  induction fits generalizing front with
  | nil => exact ⟨rfl, .nil, [], by rw [List.append_nil]; rfl, .nil, rfl⟩
  | @cons m slot ms slots here rest ih =>
    unfold apply
    cases here with
    | refused h =>
      simp only [Program.bind_eq, Program.pure_eq]
      apply Program.keeps_seq (ih front)
      intro v left ends
      obtain ⟨slots', result⟩ := left
      obtain ⟨same, fits', done⟩ := ends
      refine ⟨same, .cons (.refused h) fits', ?_⟩
      cases result with
      | error f => exact done
      | ok items =>
        obtain ⟨passed, desk, settles, split⟩ := done
        exact ⟨passed, desk, .refused h settles, split⟩
    | @waiting t readable own =>
      simp only [Program.bind_eq, Program.pure_eq]
      apply Program.keeps_seq (settleTicket_keeps work t front (waitingOf slots) posted)
      intro v left ends
      obtain ⟨desk, _⟩ := v
      obtain ⟨t', result⟩ := left
      obtain ⟨rfl, message, event, done⟩ := ends
      have readable' : m.decode = .ok t'.event := by rw [event]; exact readable
      have own' : t'.message = m := message.trans own
      cases result with
      | error f =>
        obtain ⟨held, rfl⟩ := done
        refine ⟨rfl, .cons (.waiting readable' own') rest, [], held, t' :: waitingOf slots, ?_, rfl⟩
        rw [List.append_nil]
      | ok item =>
        obtain ⟨entry, rfl, kind⟩ := done
        refine Program.keeps_seq (ih (front ++ [⟨t', entry⟩])) ?_
        intro v left ends
        obtain ⟨slots', result⟩ := left
        obtain ⟨same, fits', done⟩ := ends
        refine ⟨same, .cons (.waiting readable' own') fits', ?_⟩
        cases result with
        | error f =>
          obtain ⟨passed, held, back, desk, split⟩ := done
          refine ⟨⟨t', entry⟩ :: passed, held, back, by simpa using desk, ?_⟩
          exact congrArg (t' :: ·) split
        | ok items =>
          obtain ⟨passed, desk, settles, split⟩ := done
          refine ⟨⟨t', entry⟩ :: passed, by simpa using desk, ?_, congrArg (t' :: ·) split⟩
          have passes : Passes t' item entry := kind
          cases passes with
          | unknown => exact .unknown readable' own' settles
          | written r numbered => exact .written r readable' own' numbered settles

theorem attempt_keeps {ms : List Message} {slots : List Slot} (fits : List.Forall₂ Slot.Of ms slots)
    (posted : List Posted) :
    (attempt slots).Keeps Desk.watch
      (fun v result => v.posted = posted ∧ List.Forall₂ Slot.Of ms result.1 ∧
        match result.2 with
        | .error _ => v.desk = .idle (waitingOf result.1)
        | .ok items => ∃ front, v.desk = .settled front ∧ Settles ms items front)
      ⟨.idle (waitingOf slots), posted⟩ := by
  unfold attempt
  simp only [Program.bind_eq, Program.pure_eq]
  refine ⟨⟨fun _ => rfl, id⟩, ?_⟩
  intro begun
  rw [watch_store]
  match begun with
  | .error f => exact ⟨rfl, fits, rfl⟩
  | .ok work =>
    simp only [Program.bind_done]
    apply Program.keeps_seq (apply_keeps work fits [] posted)
    intro v left ends
    obtain ⟨desk, _⟩ := v
    obtain ⟨slots', result⟩ := left
    obtain ⟨rfl, fits', done⟩ := ends
    cases result with
    | error f =>
      obtain ⟨passed, held, back, rfl, split⟩ := done
      refine ⟨⟨fun _ => .rollback held back, id⟩, ?_⟩
      intro answer
      rw [watch_store]
      exact ⟨rfl, fits', congrArg Desk.idle split.symm⟩
    | ok items =>
      obtain ⟨passed, rfl, settles, split⟩ := done
      refine ⟨⟨fun _ => .commit, id⟩, ?_⟩
      intro answer
      rw [watch_store]
      match answer with
      | .error f => exact ⟨rfl, fits', congrArg Desk.idle ((List.append_nil _).trans split.symm)⟩
      | .ok () => exact ⟨rfl, fits', passed, rfl, settles⟩

theorem conclude_keeps (items : List Item) (v : View) :
    (conclude items).Keeps Desk.watch
      (fun v' outcomes => v' = ⟨v.desk, v.posted ++ items.flatMap Item.posted⟩ ∧ outcomes = items.map Item.outcome)
      v := by
  induction items generalizing v with
  | nil => simp [conclude]
  | cons item items ih =>
    cases item with
    | refused reason =>
      apply Program.keeps_seq (ih v)
      intro _ _ same
      obtain ⟨rfl, rfl⟩ := same
      exact ⟨rfl, rfl⟩
    | settled r n =>
      apply Program.keeps_seq (ih v)
      intro _ _ same
      obtain ⟨rfl, rfl⟩ := same
      exact ⟨rfl, rfl⟩
    | unknown t =>
      apply Program.keeps_seq (publishSingle_keeps t.message .unknownCampaign _ v)
      intro _ _ same
      subst same
      apply Program.keeps_seq (ih _)
      intro _ _ same
      obtain ⟨rfl, rfl⟩ := same
      exact ⟨by simp [Item.posted], rfl⟩

theorem giveUp_keeps (slots : List Slot) (reason : Reason) (f : Fault) (v : View) :
    (giveUp slots reason f).Keeps Desk.watch
      (fun v' outcomes => v' = ⟨v.desk, v.posted ++ (waitingOf slots).map fun t => .of t.message reason⟩ ∧
        outcomes = slots.map (Slot.givenUp reason)) v := by
  apply Program.keeps_seq (publishGroup_keeps _ reason f.message v)
  intro _ _ same
  subst same
  exact ⟨by simp [waitingOf], rfl⟩

theorem conclude_ends {ms : List Message} {items : List Item} {front : List Passed}
    (settles : Settles ms items front) (n : Nat) :
    ((conclude items).bind fun outcomes => .done (Report.mk outcomes n)).Keeps Desk.watch
      (fun v report => Ends ms v report.outcomes) ⟨.settled front, refusals ms⟩ := by
  apply Program.keeps_seq (conclude_keeps items _)
  intro _ _ same
  obtain ⟨rfl, rfl⟩ := same
  exact .committed settles

theorem giveUp_ends {ms : List Message} {slots : List Slot} (fits : List.Forall₂ Slot.Of ms slots)
    {reason : Reason} (failed : reason = .retriesExhausted ∨ reason = .storeRejected) (f : Fault) (n : Nat) :
    ((giveUp slots reason f).bind fun outcomes => .done (Report.mk outcomes n)).Keeps Desk.watch
      (fun v report => Ends ms v report.outcomes) ⟨.idle (waitingOf slots), refusals ms⟩ := by
  apply Program.keeps_seq (giveUp_keeps slots reason f _)
  intro _ _ same
  obtain ⟨rfl, rfl⟩ := same
  exact .givenUp reason failed fits

/-- What follows attempt number `n`, by what it came to; `known` is known of all that another attempt leads to. -/
inductive Sequel (b : Backoff) (known : Nat → Nat → Duration → List Slot → Program Report → Prop) (n : Nat)
    (delay : Duration) : Nat → List Slot × Except Fault (List Item) → Program Report → Prop
  | committed {left : Nat} (slots : List Slot) (items : List Item) :
      Sequel b known n delay left (slots, .ok items) ((conclude items).bind fun os => .done ⟨os, n⟩)
  | rejected {left : Nat} (slots : List Slot) {f : Fault} (permanent : f.isTransient = false) :
      Sequel b known n delay left (slots, .error f) ((giveUp slots .storeRejected f).bind fun os => .done ⟨os, n⟩)
  | exhausted (slots : List Slot) {f : Fault} (transient : f.isTransient = true) :
      Sequel b known n delay 0 (slots, .error f) ((giveUp slots .retriesExhausted f).bind fun os => .done ⟨os, n⟩)
  | again {left : Nat} (slots : List Slot) {f : Fault} (transient : f.isTransient = true) {later : Program Report}
      (ih : known left (n + 1) (b.next delay) slots later) :
      Sequel b known n delay (left + 1) (slots, .error f)
        (.ask (.measure .retry) fun _ => .ask (.wait delay) fun _ => later)

/-- On the attempts that are left: an attempt, and what follows it. -/
theorem settle_induction {b : Backoff} {motive : Nat → Nat → Duration → List Slot → Program Report → Prop}
    (attempted : ∀ left n delay slots rest, (∀ result, Sequel b motive n delay left result (rest result)) →
      motive left n delay slots ((attempt slots).bind rest)) (left n : Nat) (delay : Duration) (slots : List Slot) :
    motive left n delay slots (settle b left n delay slots) := by
  induction left generalizing n delay slots with
  | zero =>
    unfold settle
    refine attempted 0 n delay slots _ ?_
    rintro ⟨slots', f | items⟩
    · cases transient : f.isTransient
      · simpa [transient] using .rejected slots' transient
      · simpa [transient] using .exhausted slots' transient
    · exact .committed slots' items
  | succ left ih =>
    unfold settle
    refine attempted (left + 1) n delay slots _ ?_
    rintro ⟨slots', f | items⟩
    · cases transient : f.isTransient
      · simpa [transient] using .rejected slots' transient
      · simpa [transient] using .again slots' transient (ih (n + 1) (b.next delay) slots')
    · exact .committed slots' items

theorem settle_keeps (b : Backoff) {ms : List Message} (left n : Nat) (delay : Duration) {slots : List Slot}
    (fits : List.Forall₂ Slot.Of ms slots) :
    (settle b left n delay slots).Keeps Desk.watch (fun v report => Ends ms v report.outcomes)
      ⟨.idle (waitingOf slots), refusals ms⟩ := by
  -- a retry begins with slots that may have drawn sequences, but fit the same messages
  refine settle_induction (motive := fun _ _ _ slots p => List.Forall₂ Slot.Of ms slots →
    p.Keeps Desk.watch (fun v report => Ends ms v report.outcomes) ⟨.idle (waitingOf slots), refusals ms⟩)
    ?_ left n delay slots fits
  intro left n delay slots rest follows fits
  refine Program.keeps_seq (attempt_keeps fits _) ?_
  rintro ⟨desk, _⟩ result ⟨rfl, fits', ends⟩
  have next := follows result
  generalize rest result = p at next ⊢
  cases next with
  | committed slots' items =>
    obtain ⟨front, rfl, settles⟩ := ends
    exact conclude_ends settles n
  | rejected slots' permanent =>
    cases ends
    exact giveUp_ends fits' (Or.inr rfl) _ n
  | exhausted slots' transient =>
    cases ends
    exact giveUp_ends fits' (Or.inl rfl) _ n
  | again slots' transient ih =>
    cases ends
    refine keeps_silent (q := .measure .retry) ⟨id, id, rfl⟩ fun _ => ?_
    exact keeps_silent (q := .wait delay) ⟨id, id, rfl⟩ fun _ => ih fits'

theorem measureAll_keeps (outcomes : List Outcome) (v : View) :
    (measureAll outcomes).Keeps Desk.watch (fun v' _ => v' = v) v := by
  induction outcomes with
  | nil => rfl
  | cons o outcomes ih => exact keeps_silent ⟨id, id, rfl⟩ fun _ => ih

theorem places_fit (ms : List Message) : List.Forall₂ Slot.Of ms (ms.map placeOf) := by
  rw [List.forall₂_map_right_iff, List.forall₂_same]
  exact fun m _ => placeOf_fits m

def closing (outcomes : List Outcome) : Program Unit := do
  measureAll outcomes
  let current ← .query .current
  .query (.measure (.sequence current))
  .query (.measure .batchDone)

theorem processBatch_eq (b : Backoff) (ms : List Message) :
    processBatch b ms = (screen ms).bind fun slots =>
      Program.bind (if (slots.filterMap Slot.ticket?).isEmpty then .done ⟨slots.map (Slot.givenUp .storeRejected), 0⟩
        else settle b b.retries 1 b.initial slots) fun report =>
          (closing report.outcomes).bind fun _ => .done report := by
  simp only [processBatch, closing, Program.bind_eq, Program.pure_eq, Program.bind_assoc]
  refine congrArg _ (funext fun slots => ?_)
  split <;> rfl

theorem closing_keeps (outcomes : List Outcome) (v : View) :
    (closing outcomes).Keeps Desk.watch (fun v' _ => v' = v) v := by
  apply Program.keeps_seq (measureAll_keeps outcomes v)
  intro v' _ same
  subst same
  refine keeps_silent (q := .current) ⟨id, id, rfl⟩ ?_
  intro current
  refine keeps_silent (q := .measure (.sequence current)) ⟨id, id, rfl⟩ ?_
  intro _
  exact keeps_silent (q := .measure .batchDone) ⟨id, id, rfl⟩ fun _ => rfl

/-- A batch keeps to its desk, from the messages that can be read and no letter posted. -/
theorem processBatch_keeps (b : Backoff) (ms : List Message) :
    (processBatch b ms).Keeps Desk.watch (fun v report => Ends ms v report.outcomes)
      ⟨.idle (ms.filterMap ticketOf), []⟩ := by
  have fits := places_fit ms
  have closes {v : View} (report : Report) (ends : Ends ms v report.outcomes) :
      ((closing report.outcomes).bind fun _ => .done report).Keeps Desk.watch
        (fun v report => Ends ms v report.outcomes) v :=
    Program.keeps_seq (closing_keeps report.outcomes v) fun _ _ same => same ▸ ends
  rw [processBatch_eq]
  apply Program.keeps_seq (screen_keeps ms _)
  intro _ _ same
  obtain ⟨rfl, rfl⟩ := same
  rw [List.nil_append, ← waitingOf_places]
  split
  · next none =>
    have empty : waitingOf (ms.map placeOf) = [] := List.isEmpty_iff.mp none
    refine closes _ ?_
    simpa [empty] using Ends.givenUp .storeRejected (Or.inr rfl) fits
  · exact Program.keeps_seq (settle_keeps b _ _ _ fits) fun _ report => closes report

def deskAfter (ms : List Message) (xs : List Exchange) : Desk :=
  (Desk.watch.track ⟨.idle (ms.filterMap ticketOf), []⟩ xs).desk

theorem deskAfter_snoc (ms : List Message) (xs : List Exchange) (q : Ask) (r : q.Reply) :
    deskAfter ms (xs ++ [⟨q, r⟩]) = (deskAfter ms xs).after q r := by
  rw [deskAfter, Watch.track_append]
  rfl

end CampaignSettlement.Settlement
