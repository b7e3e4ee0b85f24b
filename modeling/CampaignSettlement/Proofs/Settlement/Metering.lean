import Mathlib.Algebra.Order.Ring.Int
import Mathlib.Tactic.Linarith
import Mathlib.Tactic.Ring
import CampaignSettlement.Proofs.Metrics.Counts
import CampaignSettlement.Proofs.Settlement.Attempts
import CampaignSettlement.Proofs.Settlement.Chronicle
import CampaignSettlement.Proofs.Settlement.Committing

/-!
What is counted of the batches, and what is reported of them. Dead letters are counted as they are sent, letter by
letter, and outcomes at the end of a batch; the two accounts come to the same. A count is weighed: each kind of measure
has a weight, and a letter that is refused is a debt which the measure of the failure pays.
-/
namespace CampaignSettlement.Settlement

open Calendar (Instant)
open Ledger (Arming Fault Faulty Result Settler)
open Wire (Envelope Message)

structure Weight where
  settled : Result → Nat := fun _ => 0
  deadLettered : Nat := 0
  letter : Reason → Nat := fun _ => 0
  publishFailure : Nat := 0
  retry : Nat := 0

def Exchange.refused : Exchange → Bool
  | ⟨.publish .., taken⟩ => !taken
  | _ => false

def refusedIn (xs : List Exchange) : Nat := xs.countP Exchange.refused

def unread (ms : List Message) : Nat := ms.countP fun m => m.decode.toOption.isNone

theorem unread_ok {m : Message} {e : Wire.Participation} (decoded : m.decode = .ok e) (ms : List Message) :
    unread (m :: ms) = unread ms := by
  rw [unread, List.countP_cons, decoded]
  rfl

theorem unread_error {m : Message} {detail : String} (decoded : m.decode = .error detail) (ms : List Message) :
    unread (m :: ms) = unread ms + 1 := by
  rw [unread, List.countP_cons, decoded]
  rfl

def unknownIn (items : List Item) : Nat := (items.map fun | .unknown _ => 1 | _ => 0).sum

theorem unknownIn_cons (item : Item) (items : List Item) :
    unknownIn (item :: items) = (match item with | .unknown _ => 1 | _ => 0) + unknownIn items := List.sum_cons

namespace Weight

variable (w : Weight)

def measure : Measure → Nat
  | .settled r => w.settled r
  | .deadLettered => w.deadLettered
  | .letters reason n => n * w.letter reason
  | .publishFailure => w.publishFailure
  | .retry => w.retry
  | .ackFailure | .sequence _ | .batchDone => 0

def asked : Ask → Nat
  | .measure m => w.measure m
  | _ => 0

def askedIn (xs : List Exchange) : Nat := (xs.map fun x => w.asked x.1).sum

/-- What is asked, less what is owed for letters that are refused. -/
def worth (x : Exchange) : Int := w.asked x.1 - if Exchange.refused x then (w.publishFailure : Int) else 0

def watch : Watch Int := ⟨fun _ _ => True, fun v q r => v + w.worth ⟨q, r⟩⟩

theorem track_worth (v : Int) (xs : List Exchange) :
    w.watch.track v xs = v + w.askedIn xs - refusedIn xs * w.publishFailure := by
  induction xs generalizing v with
  | nil => simp [Watch.track, askedIn, refusedIn]
  | cons x xs ih =>
    refine (ih _).trans ?_
    change v + w.worth x + _ - _ = _
    cases refused : Exchange.refused x <;>
      simp [worth, askedIn, refusedIn, refused] <;> ring

def lost : Outcome → Nat
  | .deadLettered reason => w.letter reason
  | .settled .. => 0

def lostIn (os : List Outcome) : Nat := (os.map w.lost).sum

def outcomes (os : List Outcome) : Nat := (os.map fun o => w.measure o.measure).sum

def report (r : Report) : Nat := w.outcomes r.outcomes + w.lostIn r.outcomes + (r.attempts - 1) * w.retry

variable {w}

theorem keeps_light {α : Type} {post : Int → α → Prop} {q : Ask} {f : q.Reply → Program α} {v : Int}
    (light : ∀ r, w.worth ⟨q, r⟩ = 0) (rest : ∀ r, (f r).Keeps w.watch post v) :
    ((Program.query q).bind f).Keeps w.watch post v := by
  refine ⟨trivial, ?_⟩
  intro r
  have same : w.watch.after v q r = v := by
    change v + w.worth ⟨q, r⟩ = v
    rw [light r, add_zero]
  rw [same]
  exact rest r

theorem publish_worth (key : String) (reason : Reason) (e : Envelope) (v : Int) :
    (publish key reason e).Keeps w.watch (fun v' _ => v' = v + e.count * w.letter reason) v := by
  refine ⟨trivial, fun _ => ⟨trivial, ?_⟩⟩
  intro taken
  have counted : w.worth ⟨.measure (.letters reason e.count), ()⟩ = e.count * w.letter reason := by
    simp [worth, asked, measure, Exchange.refused]
  cases taken with
  | true =>
    change v + w.worth ⟨.measure (.letters reason e.count), ()⟩ + w.worth ⟨.publish key e, true⟩ = _
    rw [counted]
    simp [worth, asked, Exchange.refused]
  | false =>
    refine ⟨trivial, fun _ => ?_⟩
    change v + w.worth ⟨.measure (.letters reason e.count), ()⟩ + w.worth ⟨.publish key e, false⟩ +
      w.worth ⟨.measure .publishFailure, ()⟩ = _
    rw [counted]
    simp [worth, asked, measure, Exchange.refused]

theorem publishSingle_worth (m : Message) (reason : Reason) (detail : String) (v : Int) :
    (publishSingle m reason detail).Keeps w.watch (fun v' _ => v' = v + w.letter reason) v := by
  refine keeps_light (q := .now) (fun _ => rfl) ?_
  intro now
  refine Program.keeps_mono (publish_worth _ _ _ v) ?_
  rintro _ _ rfl
  simp [Envelope.count, Envelope.single]

theorem publishGroup_worth (ms : List Message) (reason : Reason) (detail : String) (v : Int) :
    (publishGroup ms reason detail).Keeps w.watch (fun v' _ => v' = v + ms.length * w.letter reason) v := by
  match ms with
  | [] => simp [publishGroup]
  | [m] =>
    refine Program.keeps_mono (publishSingle_worth m reason detail v) ?_
    rintro _ _ rfl
    simp
  | m :: n :: ms =>
    refine keeps_light (q := .now) (fun _ => rfl) ?_
    intro now
    refine Program.keeps_mono (publish_worth _ _ _ v) ?_
    rintro _ _ rfl
    simp [Envelope.count, Envelope.group]

theorem lostIn_cons (o : Outcome) (os : List Outcome) : w.lostIn (o :: os) = w.lost o + w.lostIn os :=
  List.sum_cons

theorem screen_worth (ms : List Message) (v : Int) :
    (screen ms).Keeps w.watch (fun v' _ => v' = v + unread ms * w.letter .undecodable) v := by
  induction ms generalizing v with
  | nil => simp [screen, unread]
  | cons m ms ih =>
    unfold screen
    simp only [Program.bind_eq, Program.pure_eq]
    cases decoded : m.decode with
    | ok e =>
      simp only [Program.bind_done]
      refine Program.keeps_seq (ih v) ?_
      rintro _ slots rfl
      rw [unread_ok decoded]
      rfl
    | error detail =>
      simp only [Program.bind_done]
      refine Program.keeps_seq (publishSingle_worth m .undecodable detail v) ?_
      rintro _ _ rfl
      refine Program.keeps_seq (ih _) ?_
      rintro _ slots rfl
      change _ = _
      rw [unread_error decoded]
      push_cast
      ring

theorem lostIn_lostFor (reason : Reason) (ms : List Message) :
    w.lostIn (lostFor reason ms) = unread ms * w.letter .undecodable + (readable ms).length * w.letter reason := by
  induction ms with
  | nil => simp [lostFor, lostIn, unread, readable]
  | cons m ms ih =>
    have both : w.lostIn (lostFor reason (m :: ms)) =
        w.letter (if m.decode.toOption.isSome then reason else .undecodable) + w.lostIn (lostFor reason ms) :=
      lostIn_cons _ _
    rw [both, ih]
    cases decoded : m.decode with
    | ok e =>
      have more : (readable (m :: ms)).length = (readable ms).length + 1 := by
        simp [readable, decoded, Except.toOption]
      rw [unread_ok decoded, more]
      change w.letter reason + _ = _
      ring
    | error detail =>
      have same : readable (m :: ms) = readable ms := by simp [readable, decoded, Except.toOption]
      rw [unread_error decoded, same]
      change w.letter .undecodable + _ = _
      ring

theorem settles_lost {ms : List Message} {items : List Item} {front : List Passed} (settles : Settles ms items front) :
    w.lostIn (items.map Item.outcome) =
      unread ms * w.letter .undecodable + unknownIn items * w.letter .unknownCampaign := by
  induction settles with
  | nil => simp [lostIn, unread, unknownIn]
  | refused h rest ih =>
    rw [List.map_cons, lostIn_cons, ih, unread_error h, unknownIn_cons]
    change w.letter .undecodable + _ = _ + (0 + _) * _
    ring
  | written r readable own numbered rest ih =>
    rw [List.map_cons, lostIn_cons, ih, unread_ok readable, unknownIn_cons]
    change 0 + _ = _ + (0 + _) * _
    ring
  | unknown readable own rest ih =>
    rw [List.map_cons, lostIn_cons, ih, unread_ok readable, unknownIn_cons]
    change w.letter .unknownCampaign + _ = _ + (1 + _) * _
    ring

theorem conclude_worth (items : List Item) (v : Int) :
    (conclude items).Keeps w.watch
      (fun v' os => os = items.map Item.outcome ∧ v' = v + unknownIn items * w.letter .unknownCampaign) v := by
  induction items generalizing v with
  | nil => simp [conclude, unknownIn]
  | cons item items ih =>
    cases item with
    | refused r | settled r n =>
      refine Program.keeps_seq (ih v) ?_
      rintro _ _ ⟨rfl, rfl⟩
      refine ⟨rfl, ?_⟩
      rw [unknownIn_cons]
      change _ = v + ((0 + unknownIn items : Nat) : Int) * _
      rw [Nat.zero_add]
    | unknown t =>
      refine Program.keeps_seq (publishSingle_worth t.message .unknownCampaign _ v) ?_
      rintro _ _ rfl
      refine Program.keeps_seq (ih _) ?_
      rintro _ _ ⟨rfl, rfl⟩
      refine ⟨rfl, ?_⟩
      rw [unknownIn_cons]
      change _ = v + ((1 + unknownIn items : Nat) : Int) * _
      push_cast
      ring

theorem giveUp_worth {ms : List Message} {slots : List Slot} (fits : List.Forall₂ Slot.Of ms slots) (reason : Reason)
    (f : Fault) (v : Int) :
    (giveUp slots reason f).Keeps w.watch
      (fun v' os => os = lostFor reason ms ∧ v' = v + (readable ms).length * w.letter reason) v := by
  have messages : (slots.filterMap Slot.ticket?).map Ticket.message = readable ms := fits_readable fits
  unfold giveUp
  rw [messages]
  refine Program.keeps_seq (publishGroup_worth (readable ms) reason f.message v) ?_
  rintro _ _ rfl
  exact ⟨fits_lost fits reason, rfl⟩

theorem attempt_worth {ms : List Message} {slots : List Slot} (fits : List.Forall₂ Slot.Of ms slots) (v : Int) :
    (attempt slots).Keeps w.watch
      (fun v' result => v' = v ∧ List.Forall₂ Slot.Of ms result.1 ∧
        ∀ items, result.2 = .ok items → ∃ front, Settles ms items front) v := by
  have refines : (Trouble.watch Desk.Counts).Refines w.watch fun _ v' => v' = v := by
    rintro _ _ q rfl counts
    refine ⟨trivial, ?_⟩
    intro r
    have nothing : w.worth ⟨q, r⟩ = 0 := by
      cases q with
      | store c | draw => rfl
      | _ => cases counts
    exact (congrArg _ nothing).trans (Int.add_zero _)
  have quiet := Program.keeps_refines refines rfl (attempt_trouble slots {})
  refine Program.keeps_mono (Program.keeps_and quiet (attempt_tried fits {})) ?_
  rintro _ result ⟨⟨_, rfl, -⟩, _, -, known⟩
  exact ⟨rfl, known⟩

theorem measureAll_worth (os : List Outcome) (v : Int) :
    (measureAll os).Keeps w.watch (fun v' _ => v' = v + w.outcomes os) v := by
  induction os generalizing v with
  | nil => simp [measureAll, outcomes]
  | cons o os ih =>
    refine ⟨trivial, fun _ => ?_⟩
    have counted : w.worth ⟨.measure o.measure, ()⟩ = w.measure o.measure := by
      simp [worth, asked, Exchange.refused]
    refine Program.keeps_mono (ih _) ?_
    rintro _ _ rfl
    change v + w.worth ⟨.measure o.measure, ()⟩ + _ = _
    rw [counted]
    simp [outcomes]
    ring

theorem closing_worth (os : List Outcome) (v : Int) :
    (closing os).Keeps w.watch (fun v' _ => v' = v + w.outcomes os) v := by
  refine Program.keeps_seq (measureAll_worth os v) ?_
  rintro _ _ rfl
  refine keeps_light (q := .current) (fun _ => rfl) ?_
  intro current
  refine keeps_light (q := .measure (.sequence current)) (fun _ => rfl) ?_
  intro _
  exact ⟨trivial, fun _ => Int.add_zero _⟩

/-- The attempts at a batch from number `n` on, whose undecodable messages were counted before. -/
def Settled (w : Weight) (ms : List Message) (n : Nat) (v v' : Int) (report : Report) : Prop :=
  ∃ k, report.attempts = n + k ∧
    v' + unread ms * w.letter .undecodable = v + w.lostIn report.outcomes + k * w.retry

theorem conclude_settled {ms : List Message} {items : List Item} {front : List Passed}
    (settles : Settles ms items front) (n : Nat) (v : Int) :
    ((conclude items).bind fun os => .done (Report.mk os n)).Keeps w.watch (w.Settled ms n v) v := by
  refine Program.keeps_seq (conclude_worth items v) ?_
  rintro _ _ ⟨rfl, rfl⟩
  refine ⟨0, rfl, ?_⟩
  rw [settles_lost settles]
  push_cast
  ring

theorem giveUp_settled {ms : List Message} {slots : List Slot} (fits : List.Forall₂ Slot.Of ms slots) (reason : Reason)
    (f : Fault) (n : Nat) (v : Int) :
    ((giveUp slots reason f).bind fun os => .done (Report.mk os n)).Keeps w.watch (w.Settled ms n v) v := by
  refine Program.keeps_seq (giveUp_worth fits reason f v) ?_
  rintro _ _ ⟨rfl, rfl⟩
  refine ⟨0, rfl, ?_⟩
  rw [lostIn_lostFor]
  push_cast
  ring

theorem settled_later {ms : List Message} {n : Nat} {v v' : Int} {report : Report}
    (later : w.Settled ms (n + 1) (v + w.retry) v' report) : w.Settled ms n v v' report := by
  obtain ⟨k, attempts, same⟩ := later
  refine ⟨k + 1, by omega, ?_⟩
  rw [same]
  push_cast
  ring

theorem settle_worth (b : Backoff) {ms : List Message} (left n : Nat) (delay : Duration) {slots : List Slot}
    (fits : List.Forall₂ Slot.Of ms slots) (v : Int) :
    (settle b left n delay slots).Keeps w.watch (w.Settled ms n v) v := by
  refine settle_induction (motive := fun _ n _ slots p => List.Forall₂ Slot.Of ms slots → ∀ v,
    p.Keeps w.watch (w.Settled ms n v) v) ?_ left n delay slots fits v
  intro left n delay slots rest follows fits v
  refine Program.keeps_seq (attempt_worth fits v) ?_
  rintro v result ⟨rfl, fits', settled⟩
  have next := follows result
  generalize rest result = p at next ⊢
  cases next with
  | committed slots' items =>
    obtain ⟨front, settles⟩ := settled items rfl
    exact conclude_settled settles n v
  | rejected slots' permanent => exact giveUp_settled fits' .storeRejected _ n v
  | exhausted slots' transient => exact giveUp_settled fits' .retriesExhausted _ n v
  | again slots' transient ih =>
    refine ⟨trivial, fun _ => ?_⟩
    have counted : w.watch.after v (.measure .retry) () = v + w.retry := by
      change v + w.worth ⟨.measure .retry, ()⟩ = _
      simp [worth, asked, measure, Exchange.refused]
    rw [counted]
    refine keeps_light (q := .wait delay) (fun _ => rfl) fun _ => ?_
    exact Program.keeps_mono (ih fits' _) fun _ _ => settled_later

/-- What a batch comes to on the count is what its report weighs, and what is owed for its letters. -/
theorem processBatch_worth (b : Backoff) (ms : List Message) (v : Int) :
    (processBatch b ms).Keeps w.watch (fun v' report => v' = v + w.report report) v := by
  have messages : ((ms.map placeOf).filterMap Slot.ticket?).map Ticket.message = readable ms :=
    fits_readable (places_fit ms)
  have closes {v' : Int} (report : Report) (k : Nat) (attempts : report.attempts - 1 = k)
      (same : v' = v + w.lostIn report.outcomes + k * w.retry) :
      ((closing report.outcomes).bind fun _ => .done report).Keeps w.watch
        (fun v' report => v' = v + w.report report) v' := by
    refine Program.keeps_seq (closing_worth report.outcomes v') ?_
    rintro _ _ rfl
    change v' + _ = v + w.report report
    rw [same, Weight.report, attempts]
    push_cast
    ring
  rw [processBatch_eq]
  refine Program.keeps_seq (Program.keeps_and (screen_worth ms v) (screen_keeps ms ⟨.idle [], []⟩)) ?_
  rintro _ slots ⟨rfl, _, rfl, -⟩
  split
  · next none =>
    have empty : readable ms = [] := by
      rw [← messages, List.isEmpty_iff.mp none]
      rfl
    refine closes _ 0 rfl ?_
    rw [fits_lost (places_fit ms), lostIn_lostFor, empty, List.length_nil]
    push_cast
    ring
  · refine Program.keeps_seq (settle_worth b b.retries 1 b.initial (places_fit ms) _) ?_
    rintro v' report ⟨k, attempts, same⟩
    refine closes report k (by omega) ?_
    linarith

end Weight

def settleEach (b : Backoff) : List (List Message) → Program (List Report)
  | [] => return []
  | ms :: rest => do
    let report ← processBatch b ms
    return report :: (← settleEach b rest)

theorem settleEach_worth (w : Weight) (b : Backoff) (batches : List (List Message)) (v : Int) :
    (settleEach b batches).Keeps w.watch
      (fun v' reports => v' = v + (reports.map w.report).sum ∧
        List.Forall₂ (fun ms r => r.outcomes.length = ms.length) batches reports) v := by
  induction batches generalizing v with
  | nil => exact ⟨(Int.add_zero v).symm, .nil⟩
  | cons ms rest ih =>
    have answered := Program.keeps_and (Weight.processBatch_worth (w := w) b ms v) (processBatch_keeps b ms)
    refine Program.keeps_seq answered ?_
    rintro _ report ⟨rfl, _, ends⟩
    refine Program.keeps_seq (ih _) ?_
    rintro _ reports ⟨rfl, answered⟩
    refine ⟨?_, .cons (ends_length ends) answered⟩
    rw [List.map_cons, List.sum_cons]
    push_cast
    ring

structure Dial where
  weight : Weight
  read : Metrics.Settlement → UInt64
  adds : ∀ k m, read (Measure.apply k m) = read k + .ofNat (weight.measure m)

namespace Dial

open Metrics.Counts (of_add)

def settled (r : Result) : Dial where
  weight := { settled := fun r' => if r' = r then 1 else 0 }
  read k := k.messages.of [match r with | .success => "success" | .fail => "fail"]
  adds k m := by
    cases m with
    | settled r' => cases r <;> cases r' <;> simp [Measure.apply, of_add, Weight.measure]
    | deadLettered => cases r <;> simp [Measure.apply, of_add, Weight.measure]
    | _ => simp [Measure.apply, Weight.measure]

def deadLettered : Dial where
  weight := { deadLettered := 1 }
  read k := k.messages.of ["dead_lettered"]
  adds k m := by
    cases m with
    | settled r' => cases r' <;> simp [Measure.apply, of_add, Weight.measure]
    | deadLettered => simp [Measure.apply, of_add, Weight.measure]
    | _ => simp [Measure.apply, Weight.measure]

theorem name_inj {r r' : Reason} (same : r.name = r'.name) : r = r' := by
  cases r <;> cases r' <;> first | rfl | exact absurd same (by decide)

def letters (reason : Reason) : Dial where
  weight := { letter := fun r => if r = reason then 1 else 0 }
  read k := k.deadLetters.of [reason.name]
  adds k m := by
    cases m with
    | letters r n =>
      by_cases same : r = reason
      · simp [Measure.apply, of_add, Weight.measure, same]
      · have other : reason.name ≠ r.name := fun h => same (name_inj h).symm
        simp [Measure.apply, of_add, Weight.measure, same, other]
    | _ => simp [Measure.apply, Weight.measure]

def publishFailures : Dial where
  weight := { publishFailure := 1 }
  read k := k.publishFailures
  adds k m := by cases m <;> simp [Measure.apply, Weight.measure]

def retries : Dial where
  weight := { retry := 1 }
  read k := k.retries
  adds k m := by cases m <;> simp [Measure.apply, Weight.measure]

variable {σ ε : Type} (d : Dial) (settler : Instant → Settler σ) (disturb : ε → σ → σ)

theorem read_answer (s : Station σ) (q : Ask) :
    d.read (s.answer settler q).1.metrics = d.read s.metrics + .ofNat (d.weight.asked q) := by
  have still : d.read s.metrics = d.read s.metrics + .ofNat 0 := (UInt64.add_zero _).symm
  cases q with
  | measure m => exact d.adds s.metrics m
  | ack partition offset =>
    simp only [Station.answer, Station.ack]
    split <;> exact still
  | _ => exact still

theorem read_change (s : Station σ) (e : Station.Change ε) :
    d.read (s.change disturb e).metrics = d.read s.metrics := by
  cases e <;> rfl

theorem read_changes (es : List (Station.Change ε)) (s : Station σ) :
    d.read (es.foldl (Station.change disturb) s).metrics = d.read s.metrics := by
  induction es generalizing s with
  | nil => rfl
  | cons e es ih => exact (ih _).trans (d.read_change disturb s e)

theorem askedIn_perm (w : Weight) {xs ys : List Exchange} (perm : xs.Perm ys) : w.askedIn xs = w.askedIn ys :=
  (perm.map _).sum_nat

theorem askedIn_snoc (w : Weight) (xs : List Exchange) (x : Exchange) :
    w.askedIn (xs ++ [x]) = w.askedIn xs + w.asked x.1 := by
  simp [Weight.askedIn]

theorem read_run {α : Type} (s : Station σ) (programs : List (Program α)) (schedule : List (Beat (Station.Change ε))) :
    let t := (Turns.start s programs).run (Station.answer settler) (Station.change disturb) schedule
    d.read t.state.metrics = d.read s.metrics + .ofNat (d.weight.askedIn (t.courses.flatMap Course.asked)) := by
  refine Turns.run_keeps (P := fun t : Turns (Station σ) α => d.read t.state.metrics =
    d.read s.metrics + .ofNat (d.weight.askedIn (t.courses.flatMap Course.asked))) ?_ ?_ schedule
  · intro t move h
    have goes := t.beat_goes (Station.answer settler) (Station.change disturb) move
    generalize t.beat (Station.answer settler) (Station.change disturb) move = t',
      t.asks (Station.answer settler) move = ys at goes ⊢
    cases goes with
    | idle => exact h
    | changed e => exact (read_change d disturb t.state e).trans h
    | @asked i c q next at_course due =>
      have grown : (⟨c.asked ++ [⟨q, (t.state.answer settler q).2⟩], next (t.state.answer settler q).2⟩ :
          Course α).asked = c.asked ++ [⟨q, (t.state.answer settler q).2⟩] := rfl
      rw [askedIn_perm d.weight (flatMap_set_perm at_course grown), askedIn_snoc, UInt64.ofNat_add, ← UInt64.add_assoc,
        ← h]
      exact read_answer d settler t.state q
  · have none : (Turns.start s programs).courses.flatMap Course.asked = [] := by
      refine List.flatMap_eq_nil_iff.mpr ?_
      intro c member
      obtain ⟨p, -, rfl⟩ := List.mem_map.mp member
      rfl
    rw [none]
    exact (UInt64.add_zero _).symm

end Dial

/-- What is known of the last number and of the gauge that shows it. -/
inductive Gauge
  | stale
  | read (n : Int)
  | level

namespace Gauge

def after : Gauge → (q : Ask) → q.Reply → Gauge
  | _, .draw, _ => .stale
  | _, .current, n => .read n
  | .read n, .measure (.sequence m), _ => if m = n then .level else .stale
  | _, .measure (.sequence _), _ => .stale
  | g, _, _ => g

def watch : Watch Gauge := ⟨fun _ _ => True, after⟩

def Shows {σ : Type} (s : Station σ) : Gauge → Prop
  | stale => True
  | read n => s.sequence.current = n
  | level => s.metrics.sequence = s.sequence.current

theorem closing_level (os : List Outcome) (g : Gauge) :
    (closing os).Keeps watch (fun g' _ => g' = .level) g := by
  refine Program.keeps_seq (Program.keeps_free (fun _ _ => trivial) (measureAll os) g) ?_
  intro g' _ _
  refine ⟨trivial, fun n => ⟨trivial, fun _ => ⟨trivial, fun _ => ?_⟩⟩⟩
  exact if_pos rfl

theorem processBatch_level (b : Backoff) (ms : List Message) (g : Gauge) :
    (processBatch b ms).Keeps watch (fun g' _ => g' = .level) g := by
  rw [processBatch_eq]
  refine Program.keeps_seq (Program.keeps_free (fun _ _ => trivial) (screen ms) g) ?_
  intro g' slots _
  refine Program.keeps_seq (Program.keeps_free (fun _ _ => trivial) _ g') ?_
  intro g' report _
  refine Program.keeps_seq (closing_level report.outcomes g') ?_
  rintro _ _ rfl
  rfl

theorem settleEach_level (b : Backoff) (batches : List (List Message)) {g : Gauge} (some_batch : batches ≠ []) :
    (settleEach b batches).Keeps watch (fun g' _ => g' = .level) g := by
  induction batches generalizing g with
  | nil => exact absurd rfl some_batch
  | cons ms rest ih =>
    refine Program.keeps_seq (processBatch_level b ms g) ?_
    rintro _ report rfl
    cases rest with
    | nil => rfl
    | cons ms' rest =>
      refine Program.keeps_seq (ih (List.cons_ne_nil _ _)) ?_
      rintro _ reports rfl
      rfl

variable {σ ε : Type} (settler : Instant → Settler σ) (disturb : ε → σ → σ)

theorem shows_answer {s : Station σ} {g : Gauge} (h : g.Shows s) (q : Ask) :
    (g.after q (s.answer settler q).2).Shows (s.answer settler q).1 := by
  cases q with
  | draw => trivial
  | current => cases g <;> exact rfl
  | ack partition offset =>
    simp only [Station.answer, Station.ack]
    cases g <;> split <;> exact h
  | measure m =>
    cases m with
    | sequence n =>
      cases g with
      | read m =>
        change (if n = m then Gauge.level else .stale).Shows _
        split
        · next same => exact same.trans (show s.sequence.current = m from h).symm
        · trivial
      | _ => trivial
    | _ => cases g <;> exact h
  | _ => cases g <;> exact h

theorem shows_change {s : Station σ} {g : Gauge} (h : g.Shows s) (e : Station.Change ε) :
    g.Shows (s.change disturb e) := by
  cases e <;> cases g <;> exact h

theorem shows_run {α : Type} (s : Station σ) (p : Program α) (schedule : List (Beat (Station.Change ε))) :
    let t := (Turns.start s [p]).run (Station.answer settler) (Station.change disturb) schedule
    ∃ c, t.courses = [c] ∧ (watch.track .stale c.asked).Shows t.state := by
  refine Turns.run_keeps (P := fun t : Turns (Station σ) α => ∃ c, t.courses = [c] ∧
    (watch.track .stale c.asked).Shows t.state) ?_ ⟨⟨[], p⟩, rfl, trivial⟩ schedule
  intro t move h
  have goes := t.beat_goes (Station.answer settler) (Station.change disturb) move
  generalize t.beat (Station.answer settler) (Station.change disturb) move = t',
    t.asks (Station.answer settler) move = ys at goes ⊢
  obtain ⟨c, alone, shown⟩ := h
  cases goes with
  | idle => exact ⟨c, alone, shown⟩
  | changed e => exact ⟨c, alone, shows_change disturb shown e⟩
  | @asked i c' q next at_course due =>
    rw [alone] at at_course
    obtain ⟨rfl, rfl⟩ : i = 0 ∧ c = c' := by
      cases i with
      | zero => exact ⟨rfl, Option.some.inj at_course⟩
      | succ i => cases at_course
    refine ⟨_, by rw [alone]; rfl, ?_⟩
    rw [Watch.track_append]
    exact shows_answer settler shown q

end Gauge

theorem callers_asked (w : Weight) {b : Backoff} {callers : List (List (List Message))}
    {cs : List (Course (List Report))} {reports : List (List Report)}
    (courses : List.Forall₂ (fun p c => Course.Of p c) (callers.map (settleEach b)) cs)
    (ended : List.Forall₂ (fun c rs => c.rest = .done rs) cs reports) :
    w.askedIn (cs.flatMap Course.asked) =
      (reports.flatten.map w.report).sum + refusedIn (cs.flatMap Course.asked) * w.publishFailure := by
  rw [List.forall₂_map_left_iff] at courses
  induction courses generalizing reports with
  | nil =>
    cases ended
    simp [Weight.askedIn, refusedIn]
  | @cons batches c callers cs course _ ih =>
    cases ended with
    | @cons _ rs _ reports done rest =>
      rw [Course.Of, done] at course
      have weighed := (Program.keeps_leads (settleEach_worth w b batches 0) course).1
      rw [Weight.track_worth] at weighed
      have own : w.askedIn c.asked = (rs.map w.report).sum + refusedIn c.asked * w.publishFailure := by
        omega
      have both (xs ys : List Exchange) : w.askedIn (xs ++ ys) = w.askedIn xs + w.askedIn ys := by
        simp [Weight.askedIn]
      have refused (xs ys : List Exchange) : refusedIn (xs ++ ys) = refusedIn xs + refusedIn ys := List.countP_append
      rw [List.flatMap_cons, both, own, ih rest, refused, List.flatten_cons, List.map_append, List.sum_append]
      ring

theorem callers_answered {b : Backoff} {callers : List (List (List Message))} {cs : List (Course (List Report))}
    {reports : List (List Report)} (courses : List.Forall₂ (fun p c => Course.Of p c) (callers.map (settleEach b)) cs)
    (ended : List.Forall₂ (fun c rs => c.rest = .done rs) cs reports) :
    List.Forall₂ (fun batches rs => List.Forall₂ (fun ms r => r.outcomes.length = ms.length) batches rs)
      callers reports := by
  rw [List.forall₂_map_left_iff] at courses
  induction courses generalizing reports with
  | nil =>
    cases ended
    exact .nil
  | @cons batches c callers cs course _ ih =>
    cases ended with
    | @cons _ rs _ reports done rest =>
      rw [Course.Of, done] at course
      exact .cons (Program.keeps_leads (settleEach_worth {} b batches 0) course).2 (ih rest)

theorem answered_length {callers : List (List (List Message))} {reports : List (List Report)}
    (answered : List.Forall₂ (fun batches rs => List.Forall₂ (fun ms r => r.outcomes.length = ms.length) batches rs)
      callers reports) :
    (reports.flatten.flatMap Report.outcomes).length = callers.flatten.flatten.length := by
  have one {batches : List (List Message)} {rs : List Report}
      (answered : List.Forall₂ (fun ms r => r.outcomes.length = ms.length) batches rs) :
      (rs.flatMap Report.outcomes).length = batches.flatten.length := by
    induction answered with
    | nil => rfl
    | cons here rest ih => rw [List.flatMap_cons, List.flatten_cons, List.length_append, List.length_append, here, ih]
  induction answered with
  | nil => rfl
  | cons here rest ih =>
    rw [List.flatten_cons, List.flatten_cons, List.flatMap_append, List.flatten_append, List.length_append,
      List.length_append, one here, ih]

theorem report_countP {w : Weight} {p : Outcome → Bool}
    (weighs : ∀ o, w.measure o.measure + w.lost o = if p o then 1 else 0) (rs : List Report) :
    (rs.map w.report).sum =
      (rs.flatMap Report.outcomes).countP p + (rs.map fun r => r.attempts - 1).sum * w.retry := by
  have outcomes (os : List Outcome) : w.outcomes os + w.lostIn os = os.countP p := by
    induction os with
    | nil => rfl
    | cons o os ih =>
      have both : w.outcomes (o :: os) = w.measure o.measure + w.outcomes os := List.sum_cons
      rw [both, Weight.lostIn_cons, List.countP_cons, ← ih, ← weighs]
      ring
  induction rs with
  | nil => simp
  | cons r rs ih =>
    rw [List.map_cons, List.sum_cons, ih, List.flatMap_cons, List.countP_append, List.map_cons, List.sum_cons,
      Weight.report, outcomes]
    ring

/-- Every counter stands at what the reports say. -/
structure Metered (messages : Nat) (reports : List Report) (refused : Nat) (k : Metrics.Settlement) : Prop where
  success : k.messages.of ["success"] =
    .ofNat ((reports.flatMap Report.outcomes).countP (Outcome.isSettled .success))
  fail : k.messages.of ["fail"] = .ofNat ((reports.flatMap Report.outcomes).countP (Outcome.isSettled .fail))
  deadLettered : k.messages.of ["dead_lettered"] =
    .ofNat ((reports.flatMap Report.outcomes).countP Outcome.isDeadLettered)
  all : (reports.flatMap Report.outcomes).countP (Outcome.isSettled .success) +
    (reports.flatMap Report.outcomes).countP (Outcome.isSettled .fail) +
      (reports.flatMap Report.outcomes).countP Outcome.isDeadLettered = messages
  letters : ∀ reason, k.deadLetters.of [reason.name] =
    .ofNat ((reports.flatMap Report.outcomes).count (.deadLettered reason))
  publishFailures : k.publishFailures = .ofNat refused
  retries : k.retries = .ofNat (reports.map fun r => r.attempts - 1).sum

theorem outcomes_all (os : List Outcome) :
    os.countP (Outcome.isSettled .success) + os.countP (Outcome.isSettled .fail) + os.countP Outcome.isDeadLettered =
      os.length := by
  induction os with
  | nil => rfl
  | cons o os ih =>
    rw [List.countP_cons, List.countP_cons, List.countP_cons, List.length_cons, ← ih]
    cases o with
    | settled r n => cases r <;> simp [Outcome.isSettled, Outcome.isDeadLettered] <;> omega
    | deadLettered reason =>
      simp [Outcome.isSettled, Outcome.isDeadLettered]
      omega

/-- Whatever the store does and whichever letters are taken, once all callers have had their reports. -/
theorem settlement_metered {σ ε : Type} (settler : Instant → Settler σ) (disturb : ε → σ → σ) (b : Backoff)
    (s : Station σ) (callers : List (List (List Message))) (schedule : List (Beat (Station.Change ε)))
    (reports : List (List Report)) :
    let start := Turns.start { s with metrics := {} } (callers.map (settleEach b))
    let t := start.run (Station.answer settler) (Station.change disturb) schedule
    t.courses.map Course.result? = reports.map some →
      Metered callers.flatten.flatten.length reports.flatten (refusedIn (t.courses.flatMap Course.asked))
          t.state.metrics ∧
        ∀ batches, batches ≠ [] → callers = [batches] → t.state.metrics.sequence = t.state.sequence.current := by
  intro start t finished
  have courses : List.Forall₂ (fun p c => Course.Of p c) (callers.map (settleEach b)) t.courses :=
    Turns.run_courses { s with metrics := {} } (callers.map (settleEach b)) schedule
  have ended := results_done finished
  have counted (d : Dial) (fresh : d.read {} = 0) : d.read t.state.metrics =
      .ofNat ((reports.flatten.map d.weight.report).sum +
        refusedIn (t.courses.flatMap Course.asked) * d.weight.publishFailure) := by
    rw [← callers_asked d.weight courses ended]
    refine (Dial.read_run d settler disturb { s with metrics := {} } _ schedule).trans ?_
    rw [fresh, UInt64.zero_add]
  have counts (d : Dial) (fresh : d.read {} = 0) {p : Outcome → Bool}
      (weighs : ∀ o, d.weight.measure o.measure + d.weight.lost o = if p o then 1 else 0) : d.read t.state.metrics =
      .ofNat ((reports.flatten.flatMap Report.outcomes).countP p +
        (reports.flatten.map fun r => r.attempts - 1).sum * d.weight.retry +
        refusedIn (t.courses.flatMap Course.asked) * d.weight.publishFailure) := by
    rw [← report_countP weighs]
    exact counted d fresh
  refine ⟨⟨?_, ?_, ?_, ?_, ?_, ?_, ?_⟩, ?_⟩
  · refine (counts (.settled .success) rfl (p := Outcome.isSettled .success) ?_).trans ?_
    · rintro (⟨⟨⟩ | ⟨⟩, n⟩ | reason) <;> rfl
    · simp [Dial.settled]
  · refine (counts (.settled .fail) rfl (p := Outcome.isSettled .fail) ?_).trans ?_
    · rintro (⟨⟨⟩ | ⟨⟩, n⟩ | reason) <;> rfl
    · simp [Dial.settled]
  · refine (counts .deadLettered rfl (p := Outcome.isDeadLettered) ?_).trans ?_
    · rintro (⟨r, n⟩ | reason) <;> rfl
    · simp [Dial.deadLettered]
  · rw [outcomes_all]
    exact answered_length (callers_answered courses ended)
  · intro reason
    refine (counts (.letters reason) rfl (p := (· == .deadLettered reason)) ?_).trans ?_
    · rintro (⟨r, n⟩ | other)
      · rfl
      · simp [Outcome.measure, Weight.measure, Weight.lost, Dial.letters]
    · simp [Dial.letters, List.count]
  · refine (counts .publishFailures rfl (p := fun _ => false) ?_).trans ?_
    · rintro (⟨r, n⟩ | reason) <;> rfl
    · simp [Dial.publishFailures]
  · refine (counts .retries rfl (p := fun _ => false) ?_).trans ?_
    · rintro (⟨r, n⟩ | reason) <;> rfl
    · simp [Dial.retries]
  · rintro batches some_batch rfl
    obtain ⟨c, alone, shown⟩ := Gauge.shows_run settler disturb { s with metrics := {} } (settleEach b batches) schedule
    have alone : t.courses = [c] := alone
    rw [alone] at courses ended
    cases courses with
    | cons course _ =>
      cases ended with
      | cons done _ =>
        rw [Course.Of, done] at course
        have level := Program.keeps_leads (Gauge.settleEach_level b batches (g := .stale) some_batch) course
        rw [show Gauge.watch.track .stale c.asked = .level from level] at shown
        exact shown

def garbled (partition offset : Int) : Message := ⟨none, [33], ⟨partition, offset, none⟩⟩

def wavering : List (Beat (Station.Change Arming)) :=
  .change (.sink true) :: (List.replicate 5 (.turn 0) ++ .change (.sink false) :: List.replicate 60 (.turn 0))

theorem settlement_metered_wavering :
    let s := stand.opening [⟨1, 2, epoch⟩] [⟨.append, .unavailable "away", 1, 2⟩]
    let callers := [[[garbled 0 0, taking 0 1], [taking 0 2, taking 0 3]]]
    let reports := [[⟨[.deadLettered .undecodable, .settled .success 1], 1⟩,
      ⟨[.deadLettered .retriesExhausted, .deadLettered .retriesExhausted], 2⟩]]
    let start := Turns.start { s with metrics := {} } (callers.map (settleEach twice))
    let t := start.run (Station.answer Faulty.settleMemory) (Station.change Faulty.arm) wavering
    t.courses.map Course.result? = reports.map some ∧ refusedIn (t.courses.flatMap Course.asked) = 1 ∧
      t.state.metrics.deadLetters.of ["RETRIES_EXHAUSTED"] = 2 ∧ Metered 4 reports.flatten 1 t.state.metrics ∧
      t.state.metrics.sequence = t.state.sequence.current := by
  intro s callers reports start t
  have finished : t.courses.map Course.result? = reports.map some := by decide +kernel
  have refused : refusedIn (t.courses.flatMap Course.asked) = 1 := by decide +kernel
  obtain ⟨metered, level⟩ := settlement_metered Faulty.settleMemory Faulty.arm twice s callers wavering reports finished
  rw [refused, show callers.flatten.flatten.length = 4 from rfl] at metered
  have letters : t.state.metrics.deadLetters.of ["RETRIES_EXHAUSTED"] = 2 := by decide +kernel
  dsimp only [t, start] at finished refused letters ⊢
  exact ⟨finished, refused, letters, metered, level _ (List.cons_ne_nil _ _) rfl⟩

end CampaignSettlement.Settlement
