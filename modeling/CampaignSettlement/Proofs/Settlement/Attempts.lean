import CampaignSettlement.Config.Consumer
import CampaignSettlement.Proofs.Settlement.Indexed
import CampaignSettlement.Proofs.Settlement.Undoing

/-!
The attempts at a batch and the waits between them. An attempt is begun, and at most one failure ends it; it is
followed by a wait and another attempt only after a failure for the time being, and the waits are the delays of the
schedule in their order. When the last attempt that is allowed has failed, or the store refuses, the messages that can
be read are given up together.
-/
namespace CampaignSettlement.Settlement

open Ledger (Fault Faulty)
open Wire (Message)

namespace Backoff

variable {b : Backoff}

theorem delaysFrom_le {d : Duration} (h : d ≤ b.greatest) (n : Nat) : ∀ e ∈ b.delaysFrom n d, e ≤ b.greatest := by
  induction n generalizing d with
  | zero => exact List.forall_mem_nil _
  | succ n ih =>
    intro e member
    rcases List.mem_cons.mp member with rfl | later
    · exact h
    · exact ih (b.next_le d) e later

theorem tail_delaysFrom_le (n : Nat) (d : Duration) : ∀ e ∈ (b.delaysFrom n d).tail, e ≤ b.greatest := by
  cases n with
  | zero => exact List.forall_mem_nil _
  | succ n => exact delaysFrom_le (b.next_le d) n

theorem take_delaysFrom {k n : Nat} (few : k ≤ n) (d : Duration) : (b.delaysFrom n d).take k = b.delaysFrom k d := by
  induction k generalizing n d with
  | zero => rfl
  | succ k ih =>
    obtain ⟨n, rfl⟩ := Nat.exists_eq_succ_of_ne_zero (Nat.ne_of_gt (Nat.lt_of_lt_of_le (Nat.succ_pos k) few))
    exact congrArg (d :: ·) (ih (Nat.le_of_succ_le_succ few) (b.next d))

theorem length_delays (b : Backoff) : b.delays.length = b.maxAttempts - 1 := length_delaysFrom b b.retries b.initial

theorem head_delays (b : Backoff) : b.delays.head? = if 1 < b.maxAttempts then some b.initial else none := by
  unfold delays retries
  by_cases more : 1 < b.maxAttempts
  · obtain ⟨n, same⟩ := Nat.exists_eq_succ_of_ne_zero (Nat.sub_ne_zero_of_lt more)
    rw [same, if_pos more]
    rfl
  · rw [Nat.sub_eq_zero_of_le (Nat.le_of_not_lt more), if_neg more]
    rfl

theorem delays_bounded (b : Backoff) : ∀ d ∈ b.delays, d.nanos ≤ max b.initial.nanos b.greatest.nanos := by
  intro d member
  have first := b.head_delays
  have later : ∀ d ∈ b.delays.tail, d ≤ b.greatest := tail_delaysFrom_le b.retries b.initial
  cases listed : b.delays with
  | nil =>
    rw [listed] at member
    cases member
  | cons e es =>
    rw [listed] at first later member
    rcases List.mem_cons.mp member with rfl | further
    · split at first
      · rw [Option.some.inj first]
        exact Nat.le_max_left _ _
      · cases first
    · have within : d.nanos ≤ b.greatest.nanos := later d further
      exact Nat.le_trans within (Nat.le_max_right _ _)

/-- What the schedule of the waits is, whatever the factor does to a delay. -/
structure Regular (b : Backoff) : Prop where
  length : b.delays.length = b.maxAttempts - 1
  first : b.delays.head? = if 1 < b.maxAttempts then some b.initial else none
  later : ∀ d ∈ b.delays.tail, d ≤ b.greatest
  bounded : ∀ d ∈ b.delays, d.nanos ≤ max b.initial.nanos b.greatest.nanos

theorem regular (b : Backoff) : b.Regular :=
  ⟨b.length_delays, b.head_delays, tail_delaysFrom_le b.retries b.initial, b.delays_bounded⟩

end Backoff

theorem environment_delays {env : Config.Environment} {c : Config.Consumer}
    (set : Config.Consumer.ofEnvironment env = .ok c) (jitter : Bool) :
    ∀ d ∈ ({ c.backoff with jitter } : Backoff).delays, d ≤ c.backoffMax := by
  refine Backoff.delaysFrom_le (b := { c.backoff with jitter }) ?_ _
  unfold Config.Consumer.ofEnvironment at set
  cases found : env.required "DATABASE_URL" with
  | error e =>
    rw [found] at set
    cases set
  | ok url =>
    rw [found] at set
    obtain rfl := Except.ok.inj set
    exact Nat.mul_le_mul_right 1000000 (Nat.le_max_right _ _)

def Ask.wait? : Ask → Option Duration
  | .wait d => some d
  | _ => none

def waitsIn (xs : List Exchange) : List Duration := xs.filterMap fun x => x.1.wait?

def beginsIn (xs : List Exchange) : Nat := xs.countP fun x => x.1 = .store .begin

/-- What happens to the attempts at a batch. -/
inductive Incident
  | begun
  | failed (f : Fault)
  | waited (d : Duration)
deriving DecidableEq, Repr

def Incident.wait? : Incident → Option Duration
  | waited d => some d
  | _ => none

def Incident.fault? : Incident → Option Fault
  | failed f => some f
  | _ => none

def incidents (x : Exchange) : List Incident :=
  match x.1 with
  | .store .begin => .begun :: (failure? x).toList.map .failed
  | .wait d => [.waited d]
  | _ => (failure? x).toList.map .failed

def incidentsIn (xs : List Exchange) : List Incident := xs.flatMap incidents

def lastFailure? (xs : List Exchange) : Option Fault := (incidentsIn xs).getLast?.bind Incident.fault?

def Incident.watch : Watch (List Incident) := ⟨fun _ _ => True, fun is q r => is ++ incidents ⟨q, r⟩⟩

theorem track_incidents (is : List Incident) (xs : List Exchange) :
    Incident.watch.track is xs = is ++ incidentsIn xs := by
  induction xs generalizing is with
  | nil => exact (List.append_nil is).symm
  | cons x xs ih => exact (ih _).trans (List.append_assoc _ _ _)

theorem incidents_failed {q : Ask} (other : q ≠ .store .begin) (still : q.wait? = none) (r : q.Reply) :
    incidents ⟨q, r⟩ = (failure? ⟨q, r⟩).toList.map .failed := by
  cases q with
  | wait d => cases still
  | store c =>
    cases c with
    | begin => exact absurd rfl other
    | _ => rfl
  | _ => rfl

theorem incidents_aside {q : Ask} (aside : Aside q) (r : q.Reply) : incidents ⟨q, r⟩ = [] := by
  cases q with
  | store c | draw | wait d => exact absurd aside id
  | _ => rfl

theorem count_failed (f : Option Fault) : (f.toList.map Incident.failed).count .begun = 0 := by
  cases f <;> rfl

theorem waits_failed (f : Option Fault) : (f.toList.map Incident.failed).filterMap Incident.wait? = [] := by
  cases f <;> rfl

theorem count_begun (xs : List Exchange) : (incidentsIn xs).count .begun = beginsIn xs := by
  induction xs with
  | nil => rfl
  | cons x xs ih =>
    obtain ⟨q, r⟩ := x
    have here : (incidents ⟨q, r⟩).count .begun = if q = .store .begin then 1 else 0 := by
      by_cases begins : q = .store .begin
      · subst begins
        simp [incidents, count_failed]
      · rw [if_neg begins]
        cases q with
        | wait d => rfl
        | store c =>
          rw [incidents_failed begins rfl]
          exact count_failed _
        | _ => rfl
    have both : (incidentsIn (⟨q, r⟩ :: xs)).count .begun = (incidents ⟨q, r⟩).count .begun + beginsIn xs := by
      rw [← ih]
      exact List.count_append
    rw [both, here, beginsIn, beginsIn, List.countP_cons, Nat.add_comm]
    simp

theorem waits_incidents (xs : List Exchange) : (incidentsIn xs).filterMap Incident.wait? = waitsIn xs := by
  induction xs with
  | nil => rfl
  | cons x xs ih =>
    obtain ⟨q, r⟩ := x
    have here : (incidents ⟨q, r⟩).filterMap Incident.wait? = q.wait?.toList := by
      cases q with
      | store c =>
        cases c with
        | begin => exact waits_failed _
        | _ => exact (congrArg _ (incidents_failed (by simp) rfl r)).trans (waits_failed _)
      | _ => rfl
    have both : (incidentsIn (⟨q, r⟩ :: xs)).filterMap Incident.wait? = q.wait?.toList ++ waitsIn xs := by
      rw [← ih, ← here]
      exact List.filterMap_append
    rw [both, waitsIn, waitsIn, List.filterMap_cons]
    cases q.wait? <;> rfl

theorem aside_incidents {α : Type} {post : Trouble → α → Prop} {p : Program α} {v : Trouble}
    (h : p.Keeps (Trouble.watch Aside) post v) (is : List Incident) :
    p.Keeps Incident.watch (fun is' a => is' = is ∧ ∃ v, post v a) is := by
  have refines : (Trouble.watch Aside).Refines Incident.watch fun _ is' => is' = is := by
    rintro _ _ q rfl aside
    refine ⟨trivial, ?_⟩
    intro r
    exact (congrArg _ (incidents_aside aside r)).trans (List.append_nil _)
  refine Program.keeps_mono (Program.keeps_refines refines rfl h) ?_
  rintro _ a ⟨v, rfl, known⟩
  exact ⟨rfl, v, known⟩

theorem apply_incidents (work : Nat) (slots : List Slot) (is : List Incident) :
    (apply work slots).Keeps Incident.watch
      (fun is' result => is' = is ++ (failuresOf result.2).map .failed) is := by
  have refines : (Trouble.watch Within).Refines Incident.watch
      fun v is' => is' = is ++ v.failures.map .failed := by
    rintro v _ q rfl within
    refine ⟨trivial, ?_⟩
    intro r
    have other : q ≠ .store .begin := by
      rintro rfl
      exact within
    have still : q.wait? = none := by
      cases q with
      | wait d => exact absurd within id
      | _ => rfl
    change is ++ v.failures.map .failed ++ incidents ⟨q, r⟩ = is ++ (v.failures ++ _).map .failed
    rw [incidents_failed other still, List.map_append, List.append_assoc]
  have start : is = is ++ ({} : Trouble).failures.map .failed := (List.append_nil is).symm
  refine Program.keeps_mono (Program.keeps_refines refines start (apply_trouble work slots {})) ?_
  rintro _ result ⟨v, rfl, rfl⟩
  rfl

theorem attempt_incidents (slots : List Slot) (is : List Incident) :
    (attempt slots).Keeps Incident.watch
      (fun is' result => is' = is ++ .begun :: (failuresOf result.2).map .failed) is := by
  unfold attempt
  simp only [Program.bind_eq, Program.pure_eq]
  refine ⟨trivial, ?_⟩
  rintro (f | work)
  · rfl
  · simp only [Program.bind_done]
    refine Program.keeps_seq (apply_incidents work slots (is ++ [.begun])) ?_
    rintro _ ⟨slots', result⟩ rfl
    cases result with
    | error f =>
      refine ⟨trivial, ?_⟩
      intro answer
      change is ++ [.begun] ++ [.failed f] ++ [] = is ++ [.begun, .failed f]
      simp
    | ok items =>
      refine ⟨trivial, ?_⟩
      rintro (f | _)
      · change is ++ [.begun] ++ [] ++ [.failed f] = is ++ [.begun, .failed f]
        simp
      · change is ++ [.begun] ++ [] ++ [] = is ++ [.begun]
        simp

/-- What is reported when the messages of a batch that can be read are given up together. -/
def lostFor (reason : Reason) (ms : List Message) : List Outcome :=
  ms.map fun m => .deadLettered (if m.decode.toOption.isSome then reason else .undecodable)

theorem fits_lost {ms : List Message} {slots : List Slot} (fits : List.Forall₂ Slot.Of ms slots) (reason : Reason) :
    slots.map (Slot.givenUp reason) = lostFor reason ms := by
  induction fits with
  | nil => rfl
  | cons here rest ih =>
    rw [List.map_cons, ih]
    cases here with
    | refused unread => simp [lostFor, unread, Except.toOption, Slot.givenUp]
    | waiting decoded own => simp [lostFor, decoded, Except.toOption, Slot.givenUp]

/-- How the last attempt at a batch ends, and what is reported for it; the attempts are spent if no other may follow. -/
inductive Verdict (ms : List Message) (spent : Prop) : Option Fault → List Outcome → Prop
  | committed {os : List Outcome} (alone : ∀ reason, .deadLettered reason ∈ os → ¬ reason.OfGroup) :
      Verdict ms spent none os
  | exhausted {f : Fault} (transient : f.isTransient) (last : spent) :
      Verdict ms spent (some f) (lostFor .retriesExhausted ms)
  | rejected {f : Fault} (permanent : ¬ f.isTransient) : Verdict ms spent (some f) (lostFor .storeRejected ms)

theorem conclude_verdict {ms : List Message} {items : List Item} {front : List Passed}
    (settles : Settles ms items front) (spent : Prop) (is : List Incident) :
    (conclude items).Keeps Incident.watch (fun is' os => is' = is ∧ Verdict ms spent none os) is := by
  refine Program.keeps_mono (aside_incidents (conclude_trouble items {}) is) ?_
  rintro _ _ ⟨rfl, -, -, rfl⟩
  exact ⟨rfl, .committed fun _ => settles_alone settles⟩

theorem giveUp_incidents {ms : List Message} {slots : List Slot} (fits : List.Forall₂ Slot.Of ms slots)
    (some_readable : readable ms ≠ []) (reason : Reason) (f : Fault) (is : List Incident) :
    (giveUp slots reason f).Keeps Incident.watch (fun is' os => is' = is ∧ os = lostFor reason ms) is := by
  have messages : (slots.filterMap Slot.ticket?).map Ticket.message = readable ms := fits_readable fits
  unfold giveUp
  rw [messages]
  refine Program.keeps_seq (aside_incidents (publishGroup_trouble some_readable reason f.message {}) is) ?_
  rintro _ _ ⟨rfl, -⟩
  exact ⟨rfl, fits_lost fits reason⟩

def retriesOf (fs : List Fault) (ds : List Duration) : List Incident :=
  (fs.zip ds).flatMap fun x => [.begun, .failed x.1, .waited x.2]

/-- The attempts at a batch after the incidents `is`, from number `n` on, of which `left` more may follow. -/
inductive Attempted (b : Backoff) (ms : List Message) (left n : Nat) (delay : Duration) (is : List Incident) :
    List Incident → Report → Prop
  | intro {retried : List Fault} {last : Option Fault} {os : List Outcome} (transient : ∀ f ∈ retried, f.isTransient)
      (few : retried.length ≤ left) (verdict : Verdict ms (retried.length = left) last os) :
      Attempted b ms left n delay is
        (is ++ (retriesOf retried (b.delaysFrom retried.length delay) ++ .begun :: last.toList.map .failed))
        ⟨os, n + retried.length⟩

theorem attempted_last (b : Backoff) {ms : List Message} {left n : Nat} {delay : Duration} (is : List Incident)
    {last : Option Fault} {os : List Outcome} (verdict : Verdict ms (0 = left) last os) :
    Attempted b ms left n delay is (is ++ .begun :: last.toList.map .failed) ⟨os, n⟩ :=
  @Attempted.intro b ms left n delay is [] last os (List.forall_mem_nil _) (Nat.zero_le _) verdict

theorem attempted_later {b : Backoff} {ms : List Message} {left n : Nat} {delay : Duration} {is is' : List Incident}
    {report : Report} {f : Fault} (transient : f.isTransient)
    (later : Attempted b ms left (n + 1) (b.next delay) (is ++ [.begun, .failed f, .waited delay]) is' report) :
    Attempted b ms (left + 1) n delay is is' report := by
  obtain ⟨others, few, verdict⟩ := later
  rename_i retried last os
  have number : n + 1 + retried.length = n + (f :: retried).length := by
    rw [List.length_cons]
    omega
  have first : is ++ [.begun, .failed f, .waited delay] ++ (retriesOf retried (b.delaysFrom retried.length
        (b.next delay)) ++ .begun :: last.toList.map .failed) =
      is ++ (retriesOf (f :: retried) (b.delaysFrom (f :: retried).length delay) ++
        .begun :: last.toList.map .failed) := by
    simp [retriesOf, Backoff.delaysFrom]
  rw [number, first]
  refine .intro ?_ (Nat.succ_le_succ few) ?_
  · simpa [transient] using others
  · simpa using verdict

theorem attempt_comes {ms : List Message} {slots : List Slot} (fits : List.Forall₂ Slot.Of ms slots)
    (is : List Incident) :
    (attempt slots).Keeps Incident.watch
      (fun is' result => is' = is ++ .begun :: (failuresOf result.2).map .failed ∧
        List.Forall₂ Slot.Of ms result.1 ∧ ∀ items, result.2 = .ok items → ∃ front, Settles ms items front) is := by
  refine Program.keeps_mono (Program.keeps_and (attempt_incidents slots is) (attempt_tried fits {})) ?_
  rintro _ result ⟨same, _, -, known⟩
  exact ⟨same, known⟩

theorem settle_incidents (b : Backoff) {ms : List Message} (some_readable : readable ms ≠ []) (left n : Nat)
    (delay : Duration) {slots : List Slot} (fits : List.Forall₂ Slot.Of ms slots) (is : List Incident) :
    (settle b left n delay slots).Keeps Incident.watch (Attempted b ms left n delay is) is := by
  have commits {items : List Item} {front : List Passed} (settles : Settles ms items front) (left n : Nat)
      (delay : Duration) (is : List Incident) :
      ((conclude items).bind fun os => .done (Report.mk os n)).Keeps Incident.watch
        (Attempted b ms left n delay is) (is ++ [.begun]) := by
    refine Program.keeps_seq (conclude_verdict settles (0 = left) _) ?_
    rintro _ os ⟨rfl, verdict⟩
    exact attempted_last b is verdict
  have ends {slots : List Slot} (fits : List.Forall₂ Slot.Of ms slots) {reason : Reason} {f : Fault}
      {left : Nat} (verdict : Verdict ms (0 = left) (some f) (lostFor reason ms)) (n : Nat) (delay : Duration)
      (is : List Incident) :
      ((giveUp slots reason f).bind fun os => .done (Report.mk os n)).Keeps Incident.watch
        (Attempted b ms left n delay is) (is ++ [.begun, .failed f]) := by
    refine Program.keeps_seq (giveUp_incidents fits some_readable reason f _) ?_
    rintro _ _ ⟨rfl, rfl⟩
    exact attempted_last b is verdict
  refine settle_induction (motive := fun left n delay slots p => List.Forall₂ Slot.Of ms slots → ∀ is,
    p.Keeps Incident.watch (Attempted b ms left n delay is) is) ?_ left n delay slots fits is
  intro left n delay slots rest follows fits is
  refine Program.keeps_seq (attempt_comes fits is) ?_
  rintro _ result ⟨rfl, fits', settled⟩
  have next := follows result
  generalize rest result = p at next ⊢
  cases next with
  | committed slots' items =>
    obtain ⟨front, settles⟩ := settled items rfl
    exact commits settles left n delay is
  | rejected slots' permanent => exact ends fits' (.rejected (by simp [permanent])) n delay is
  | exhausted slots' transient => exact ends fits' (.exhausted transient rfl) n delay is
  | @again left slots' f transient later ih =>
    refine ⟨trivial, fun _ => ⟨trivial, fun _ => ?_⟩⟩
    have gone : is ++ .begun :: (failuresOf (.error f : Except Fault (List Item))).map .failed ++
        incidents ⟨.measure .retry, ()⟩ ++ incidents ⟨.wait delay, ()⟩ = is ++ [.begun, .failed f, .waited delay] := by
      simp [failuresOf, incidents, failure?]
    change Program.Keeps Incident.watch _ _ (_ ++ _ ++ _)
    rw [gone]
    exact Program.keeps_mono (ih fits' _) fun _ _ => attempted_later transient

theorem processBatch_incidents (b : Backoff) {ms : List Message} (some_readable : readable ms ≠ []) :
    (processBatch b ms).Keeps Incident.watch (Attempted b ms b.retries 1 b.initial []) [] := by
  have messages : ((ms.map placeOf).filterMap Slot.ticket?).map Ticket.message = readable ms :=
    fits_readable (places_fit ms)
  have waiting : ((ms.map placeOf).filterMap Slot.ticket?).isEmpty = false := by
    rw [← messages] at some_readable
    simpa using some_readable
  rw [processBatch_eq]
  have screened := Program.keeps_and (screen_trouble ms {}) (screen_keeps ms ⟨.idle [], []⟩)
  refine Program.keeps_seq (aside_incidents screened []) ?_
  rintro _ slots ⟨rfl, _, -, _, rfl, -⟩
  rw [waiting]
  refine Program.keeps_seq (settle_incidents b some_readable b.retries 1 b.initial (places_fit ms) []) ?_
  intro is report attempted
  refine Program.keeps_seq (aside_incidents (closing_trouble report.outcomes {}) is) ?_
  rintro _ _ ⟨rfl, -⟩
  exact attempted

theorem count_retries (fs : List Fault) (ds : List Duration) :
    (retriesOf fs ds).count .begun = min fs.length ds.length := by
  induction fs generalizing ds with
  | nil => simp [retriesOf]
  | cons f fs ih =>
    cases ds with
    | nil => rfl
    | cons d ds =>
      have both : (retriesOf (f :: fs) (d :: ds)).count .begun = (retriesOf fs ds).count .begun + 1 := by
        simp [retriesOf]
      rw [both, ih, List.length_cons, List.length_cons]
      omega

theorem waits_retries {fs : List Fault} {ds : List Duration} (all : ds.length ≤ fs.length) :
    (retriesOf fs ds).filterMap Incident.wait? = ds := by
  induction fs generalizing ds with
  | nil =>
    obtain rfl := List.eq_nil_of_length_eq_zero (Nat.le_zero.mp all)
    rfl
  | cons f fs ih =>
    cases ds with
    | nil => rfl
    | cons d ds => exact congrArg (d :: ·) (ih (Nat.le_of_succ_le_succ all))

theorem last_failure (is : List Incident) (last : Option Fault) :
    (is ++ Incident.begun :: last.toList.map Incident.failed).getLast?.bind Incident.fault? = last := by
  cases last with
  | none => simp [Incident.fault?]
  | some f => simp [Incident.fault?]

section Verdicts

variable {ms : List Message} (some_readable : readable ms ≠ [])
include some_readable

theorem lost_for {given reason : Reason} (failed : reason.OfGroup) :
    .deadLettered reason ∈ lostFor given ms ↔ reason = given := by
  rw [← fits_lost (places_fit ms)]
  constructor
  · exact fun member => (givenUp_together (places_fit ms) failed member).1
  · rintro rfl
    exact givenUp_some reason (places_fit ms) some_readable

theorem verdict_exhausted {spent : Prop} {last : Option Fault} {os : List Outcome}
    (verdict : Verdict ms spent last os) :
    .deadLettered .retriesExhausted ∈ os ↔ spent ∧ ∃ f, last = some f ∧ f.isTransient := by
  have group : Reason.retriesExhausted.OfGroup := Or.inl rfl
  cases verdict with
  | committed alone => exact ⟨fun member => absurd group (alone _ member), by simp⟩
  | @exhausted f transient spent =>
    exact ⟨fun _ => ⟨spent, f, rfl, transient⟩, fun _ => (lost_for some_readable group).mpr rfl⟩
  | rejected permanent =>
    constructor
    · exact fun member => nomatch (lost_for some_readable group).mp member
    · rintro ⟨-, _, same, transient⟩
      obtain rfl := Option.some.inj same
      exact absurd transient permanent

theorem verdict_rejected {spent : Prop} {last : Option Fault} {os : List Outcome} (verdict : Verdict ms spent last os) :
    .deadLettered .storeRejected ∈ os ↔ ∃ f, last = some f ∧ ¬ f.isTransient := by
  have group : Reason.storeRejected.OfGroup := Or.inr rfl
  cases verdict with
  | committed alone => exact ⟨fun member => absurd group (alone _ member), by simp⟩
  | exhausted transient =>
    constructor
    · exact fun member => nomatch (lost_for some_readable group).mp member
    · rintro ⟨_, same, permanent⟩
      obtain rfl := Option.some.inj same
      exact absurd transient permanent
  | @rejected f permanent => exact ⟨fun _ => ⟨f, rfl, permanent⟩, fun _ => (lost_for some_readable group).mpr rfl⟩

theorem verdict_together {spent : Prop} {last : Option Fault} {os : List Outcome} (verdict : Verdict ms spent last os)
    {reason : Reason} (group : reason.OfGroup) (member : .deadLettered reason ∈ os) : os = lostFor reason ms := by
  cases verdict with
  | committed alone => exact absurd group (alone _ member)
  | exhausted | rejected => rw [(lost_for some_readable group).mp member]

end Verdicts

/-- How the attempts at a batch with a message that can be read have gone, by all that was asked for it. -/
structure Scheduled (b : Backoff) (ms : List Message) (xs : List Exchange) (report : Report) : Prop where
  bounded : report.attempts ≤ max b.maxAttempts 1
  begins : beginsIn xs = report.attempts
  pauses : (waitsIn xs).length + 1 = report.attempts
  waits : waitsIn xs = b.delays.take (report.attempts - 1)
  /-- The schedule has an entry for every wait. -/
  listed : report.attempts - 1 ≤ b.delays.length
  /-- Every attempt but the last has failed for the time being, and a wait followed it. -/
  passing : ∃ retried, retried.length = (waitsIn xs).length ∧ (∀ f ∈ retried, f.isTransient) ∧
    incidentsIn xs = retriesOf retried (waitsIn xs) ++ .begun :: (lastFailure? xs).toList.map .failed
  exhausted : .deadLettered .retriesExhausted ∈ report.outcomes ↔
    report.attempts = max b.maxAttempts 1 ∧ ∃ f, lastFailure? xs = some f ∧ f.isTransient
  rejected : .deadLettered .storeRejected ∈ report.outcomes ↔ ∃ f, lastFailure? xs = some f ∧ ¬ f.isTransient
  together : ∀ reason, reason.OfGroup → .deadLettered reason ∈ report.outcomes →
    report.outcomes = lostFor reason ms ∧ ∃ e, groupLetters (lettersIn xs) = [e] ∧ Reports e reason (readable ms)

theorem batch_scheduled {b : Backoff} {ms : List Message} {xs : List Exchange} {report : Report}
    (some_readable : readable ms ≠ []) (course : (processBatch b ms).Leads xs (.done report)) :
    Scheduled b ms xs report := by
  have attempted := Program.keeps_leads (processBatch_incidents b some_readable) course
  rw [track_incidents] at attempted
  generalize all : [] ++ incidentsIn xs = is at attempted
  have finishes := batch_finishes course
  obtain ⟨transient, few, verdict⟩ := attempted
  rename_i retried last os
  rw [List.nil_append, List.nil_append] at all
  have length := Backoff.length_delaysFrom b retried.length b.initial
  have waits : waitsIn xs = b.delaysFrom retried.length b.initial := by
    rw [← waits_incidents, all, List.filterMap_append, waits_retries (Nat.le_of_eq length)]
    exact (congrArg _ (waits_failed last)).trans (List.append_nil _)
  have begins : beginsIn xs = 1 + retried.length := by
    rw [← count_begun, all, List.count_append, count_retries, length, Nat.min_self, List.count_cons_self,
      count_failed, Nat.zero_add, Nat.add_comm]
  have ending : lastFailure? xs = last := by
    rw [lastFailure?, all]
    exact last_failure _ last
  have most : b.retries = b.maxAttempts - 1 := rfl
  have reached : 1 + retried.length = max b.maxAttempts 1 ↔ retried.length = b.retries := by omega
  refine ⟨?_, begins, ?_, ?_, ?_, ⟨retried, ?_, transient, ?_⟩, ?_, ?_, ?_⟩
  · change 1 + retried.length ≤ _
    omega
  · rw [waits, length, Nat.add_comm]
  · rw [Nat.add_sub_cancel_left, waits]
    exact (Backoff.take_delaysFrom few b.initial).symm
  · rw [Nat.add_sub_cancel_left, b.length_delays]
    exact few
  · rw [waits, length]
  · rw [all, waits, ending]
  · rw [ending, reached]
    exact verdict_exhausted some_readable verdict
  · rw [ending]
    exact verdict_rejected some_readable verdict
  · intro reason group member
    exact ⟨verdict_together some_readable verdict group member, finishes_letter finishes group member⟩

theorem unread_unattempted {b : Backoff} {ms : List Message} {xs : List Exchange} {report : Report}
    (none_readable : readable ms = []) (course : (processBatch b ms).Leads xs (.done report)) :
    report.attempts = 0 ∧ incidentsIn xs = [] := by
  have quiet := Program.keeps_leads (aside_incidents (unread_trouble b none_readable) []) course
  rw [track_incidents] at quiet
  obtain ⟨none, -, unattempted⟩ := quiet
  exact ⟨unattempted, none⟩

/-- Whatever the policy is, without jitter, and however the questions are answered. -/
theorem attempts_scheduled {σ : Type} (answer : σ → (q : Ask) → σ × q.Reply) (s : σ) (b : Backoff)
    (_plain : b.jitter = false) (ms : List Message) :
    let xs := (processBatch b ms).transcript answer s
    let report := ((processBatch b ms).run answer s).2
    (readable ms ≠ [] → Scheduled b ms xs report) ∧
      (readable ms = [] → report.attempts = 0 ∧ beginsIn xs = 0 ∧ waitsIn xs = []) ∧
      b.Regular ∧ (∀ slots, settle b b.retries 1 b.initial slots = settleFrom b 1 slots) ∧
      ∀ env c, Config.Consumer.ofEnvironment env = .ok c → b = { c.backoff with jitter := false } →
        ∀ d ∈ waitsIn xs, d ≤ c.backoffMax := by
  intro xs report
  have course : (processBatch b ms).Leads xs (.done report) := (processBatch b ms).leads_transcript answer s
  have unread (none_readable : readable ms = []) : report.attempts = 0 ∧ beginsIn xs = 0 ∧ waitsIn xs = [] := by
    obtain ⟨unattempted, none⟩ := unread_unattempted none_readable course
    rw [← count_begun, ← waits_incidents, none]
    exact ⟨unattempted, rfl, rfl⟩
  refine ⟨fun some_readable => batch_scheduled some_readable course, unread, b.regular, settle_counted b, ?_⟩
  rintro env c set rfl d member
  refine environment_delays set false d ?_
  by_cases none_readable : readable ms = []
  · rw [(unread none_readable).2.2] at member
    cases member
  · rw [(batch_scheduled none_readable course).waits] at member
    exact List.mem_of_mem_take member

def thrice : Backoff := ⟨3, .ofMillis 100, .ofMillis 150, .finite false 2 0, false⟩

theorem attempts_scheduled_away :
    let s := stand.opening [⟨1, 1, epoch⟩] [⟨.append, .unavailable "away", 0, 3⟩]
    let xs := (processBatch thrice [taking 0 0]).transcript (Station.answer Faulty.settleMemory) s
    let report := ((processBatch thrice [taking 0 0]).run (Station.answer Faulty.settleMemory) s).2
    readable [taking 0 0] ≠ [] ∧ waitsIn xs = [.ofMillis 100, .ofMillis 150] ∧
      report = ⟨[.deadLettered .retriesExhausted], 3⟩ ∧ Scheduled thrice [taking 0 0] xs report := by
  have some_readable : readable [taking 0 0] ≠ [] := by decide +kernel
  refine ⟨some_readable, by decide +kernel, by decide +kernel, ?_⟩
  exact (attempts_scheduled _ _ thrice rfl _).1 some_readable

end CampaignSettlement.Settlement
