import CampaignSettlement.Proofs.Program.Indifference
import CampaignSettlement.Proofs.Settlement.Draining
import CampaignSettlement.Proofs.Settlement.Metering

/-!
Settlement takes no heed of what becomes of its letters. Two runs of a worker over the same batches, with the same
news from outside, may differ in every answer that the dead-letter topic gives. They come to the same reports and leave
the same station; they differ in the letters that the topic has, and in the count of those that it has not.
-/
namespace CampaignSettlement.Settlement

open Calendar (Instant)
open Ledger (Arming Fault Faulty Settler StoreCall)
open Wire (Envelope Letter Message)

section Programs

open Program

theorem publish_indifferent (key : String) (reason : Reason) (e : Envelope) :
    (publish key reason e).Indifferent (fun _ _ => True) (publish key reason e) := by
  refine .ask (q := .measure (.letters reason e.count)) trivial fun _ => .letter ?_
  intro taken taken'
  cases taken <;> cases taken'
  · exact .left (.right (.done trivial))
  · exact .left (.done trivial)
  · exact .right (.done trivial)
  · exact .done trivial

theorem publishSingle_indifferent (m : Message) (reason : Reason) (detail : String) :
    (publishSingle m reason detail).Indifferent (fun _ _ => True) (publishSingle m reason detail) :=
  .ask (q := .now) trivial fun _ => publish_indifferent _ reason _

theorem publishGroup_indifferent (ms : List Message) (reason : Reason) (detail : String) :
    (publishGroup ms reason detail).Indifferent (fun _ _ => True) (publishGroup ms reason detail) := by
  match ms with
  | [] => exact .done trivial
  | [m] => exact publishSingle_indifferent m reason detail
  | m :: n :: ms => exact .ask (q := .now) trivial fun _ => publish_indifferent _ reason _

theorem screen_heedless (ms : List Message) : (screen ms).Heedless := by
  induction ms with
  | nil => exact heedless_done []
  | cons m ms ih =>
    unfold screen
    simp only [Program.bind_eq, Program.pure_eq]
    cases m.decode with
    | ok e =>
      simp only [Program.bind_done]
      exact heedless_seq ih fun _ => heedless_done _
    | error detail =>
      simp only [Program.bind_done]
      refine heedless_after (publishSingle_indifferent m .undecodable detail) ?_
      exact heedless_seq ih fun _ => heedless_done _

theorem attempt_heedless (slots : List Slot) : (attempt slots).Heedless := by
  refine heedless_of_keeps (attempt_trouble slots {}) ?_
  intro _ q counts
  cases q with
  | store c | draw => trivial
  | _ => cases counts

theorem conclude_heedless (items : List Item) : (conclude items).Heedless := by
  induction items with
  | nil => exact heedless_done []
  | cons item items ih =>
    have later (o : Outcome) : ((conclude items).bind fun os => .done (o :: os)).Heedless :=
      heedless_seq ih fun _ => heedless_done _
    cases item with
    | refused r | settled r n => exact later _
    | unknown t => exact heedless_after (publishSingle_indifferent t.message .unknownCampaign _) (later _)

theorem giveUp_heedless (slots : List Slot) (reason : Reason) (f : Fault) : (giveUp slots reason f).Heedless :=
  heedless_after (publishGroup_indifferent _ reason f.message) (heedless_done _)

theorem settle_heedless (b : Backoff) (left n : Nat) (delay : Duration) (slots : List Slot) :
    (settle b left n delay slots).Heedless := by
  have reported {p : Program (List Outcome)} (heedless : p.Heedless) (n : Nat) :
      (p.bind fun os => .done (Report.mk os n)).Heedless :=
    heedless_seq heedless fun _ => heedless_done _
  refine settle_induction (motive := fun _ _ _ _ p => p.Heedless) ?_ left n delay slots
  intro left n delay slots rest follows
  refine heedless_seq (attempt_heedless slots) fun result => ?_
  have next := follows result
  generalize rest result = p at next ⊢
  cases next with
  | committed slots' items => exact reported (conclude_heedless items) n
  | rejected slots' permanent | exhausted slots' transient => exact reported (giveUp_heedless slots' _ _) n
  | again slots' transient ih =>
    refine heedless_ask (q := .measure .retry) trivial fun _ => ?_
    exact heedless_ask (q := .wait delay) trivial fun _ => ih

theorem measureAll_heedless (os : List Outcome) : (measureAll os).Heedless := by
  induction os with
  | nil => exact heedless_done ()
  | cons o os ih =>
    have plain : Ask.Plain (.measure o.measure) := by cases o <;> trivial
    exact heedless_ask plain fun _ => ih

theorem closing_heedless (os : List Outcome) : (closing os).Heedless := by
  refine heedless_seq (measureAll_heedless os) fun _ => ?_
  refine heedless_ask (q := .current) trivial fun current => ?_
  refine heedless_ask (q := .measure (.sequence current)) trivial fun _ => ?_
  exact heedless_ask (q := .measure .batchDone) trivial fun _ => heedless_done ()

theorem processBatch_heedless (b : Backoff) (ms : List Message) : (processBatch b ms).Heedless := by
  rw [processBatch_eq]
  refine heedless_seq (screen_heedless ms) fun slots => ?_
  refine heedless_seq ?_ fun report => heedless_seq (closing_heedless report.outcomes) fun _ => heedless_done report
  split
  · exact heedless_done _
  · exact settle_heedless b b.retries 1 b.initial slots

theorem acknowledge_heedless (partition : Int) (batch : List Message) : (acknowledge partition batch).Heedless := by
  cases last : lastOffset batch with
  | none =>
    unfold acknowledge
    rw [last]
    exact heedless_done true
  | some offset =>
    rw [acknowledge_eq last]
    refine heedless_ask trivial ?_
    intro r
    cases r with
    | done | broken => exact heedless_done _
    | failed f => exact heedless_ask trivial fun _ => heedless_done true

theorem reportedRound_heedless (b : Backoff) (partition : Int) (batch : List Message) :
    (reportedRound b partition batch).Heedless := by
  refine heedless_ask (q := .account partition batch.length) trivial fun _ => ?_
  simp only [Program.bind_eq, Program.bind_done, Program.pure_eq]
  refine heedless_seq (processBatch_heedless b batch) fun report => ?_
  exact heedless_seq (acknowledge_heedless partition batch) fun _ => heedless_done _

theorem round_heedless (b : Backoff) (partition : Int) (batch : List Message) : (round b partition batch).Heedless := by
  rw [round_eq]
  exact heedless_seq (reportedRound_heedless b partition batch) fun _ => heedless_done _

theorem work_heedless (b : Backoff) (partition : Int) (batches : List (List Message)) :
    (work b partition batches).Heedless := by
  induction batches with
  | nil => exact heedless_done []
  | cons batch rest ih =>
    refine heedless_seq (reportedRound_heedless b partition batch) ?_
    rintro ⟨report, goesOn⟩
    cases goesOn with
    | false => exact heedless_done _
    | true => exact heedless_seq ih fun _ => heedless_done _

end Programs

namespace Station

variable {σ ε : Type}

/-- What is left of a station when nothing is said of its dead-letter topic and of the failures to publish there. -/
def muted (s : Station σ) : Station σ :=
  { s with sink := {}, metrics := { s.metrics with publishFailures := 0 } }

variable (settler : Instant → Settler σ) (disturb : ε → σ → σ)

theorem answer_muted (s : Station σ) {q : Ask} (plain : q.Plain) :
    s.muted.answer settler q = ((s.answer settler q).1.muted, (s.answer settler q).2) := by
  cases q with
  | publish key e => exact absurd plain id
  | measure m =>
    cases m with
    | publishFailure => exact absurd plain id
    | _ => rfl
  | ack partition offset =>
    obtain ⟨_, _, _, _, _, _, ⟨_, breaking, _⟩, _, _, _⟩ := s
    cases breaking <;> rfl
  | _ => rfl

theorem answer_alike {s s' : Station σ} (same : s.muted = s'.muted) {q : Ask} (plain : q.Plain) :
    (s'.answer settler q).2 = (s.answer settler q).2 ∧
      (s.answer settler q).1.muted = (s'.answer settler q).1.muted := by
  have both := s.answer_muted settler plain
  rw [same, s'.answer_muted settler plain] at both
  obtain ⟨left, replies⟩ := Prod.mk.inj both
  exact ⟨replies, left.symm⟩

theorem change_muted (s : Station σ) (e : Change ε) :
    (s.change disturb e).muted = (s.muted.change disturb e).muted := by
  cases e <;> rfl

theorem changes_alike (es : List (Change ε)) {s s' : Station σ} (same : s.muted = s'.muted) :
    (es.foldl (change disturb) s).muted = (es.foldl (change disturb) s').muted := by
  induction es generalizing s s' with
  | nil => exact same
  | cons e es ih =>
    refine ih ?_
    rw [change_muted, same, ← change_muted]

theorem answer_topic (s : Station σ) {q : Ask} (plain : q.Plain) :
    (s.answer settler q).1.deadLetterTopic = s.deadLetterTopic ∧ (s.answer settler q).1.sink.sent = s.sink.sent := by
  cases q with
  | publish key e => exact absurd plain id
  | ack partition offset =>
    simp only [answer, ack]
    split <;> exact ⟨rfl, rfl⟩
  | _ => exact ⟨rfl, rfl⟩

theorem changes_topic (es : List (Change ε)) (s : Station σ) :
    (es.foldl (change disturb) s).deadLetterTopic = s.deadLetterTopic ∧
      (es.foldl (change disturb) s).sink.sent = s.sink.sent := by
  induction es generalizing s with
  | nil => exact ⟨rfl, rfl⟩
  | cons e es ih =>
    obtain ⟨topic, sent⟩ := ih (s.change disturb e)
    cases e <;> exact ⟨topic, sent⟩

theorem answer_unheeding :
    Program.Unheeding (answer settler) (answer settler) fun s s' : Station σ => s.muted = s'.muted where
  plain same plain := answer_alike settler same plain
  letter _ _ same := same
  left same := same
  right same := same

theorem shown_muted {β : Type} (shows : Station σ → β) (unsaid : ∀ s : Station σ, shows s.muted = shows s)
    {s s' : Station σ} (same : s.muted = s'.muted) : shows s = shows s' := by
  rw [← unsaid s, same, unsaid s']

theorem pool_muted {s s' : Station σ} (same : s.muted = s'.muted) : s.pool = s'.pool :=
  shown_muted Station.pool (fun _ => rfl) same

theorem withPool_muted {s s' : Station σ} (same : s.muted = s'.muted) (pool : Pool) :
    ({ s with pool } : Station σ).muted = ({ s' with pool } : Station σ).muted :=
  congrArg (fun t : Station σ => { t with pool }) same

theorem drainLane_muted (b : Backoff) (partition : Int) (fuel : Nat) {s s' : Station σ} (same : s.muted = s'.muted) :
    (drainLane settler b partition fuel s).muted = (drainLane settler b partition fuel s').muted := by
  induction fuel generalizing s s' with
  | zero => exact same
  | succ fuel ih =>
    rcases received' : s'.pool.receive partition with ⟨pool, batch⟩
    have received : s.pool.receive partition = (pool, batch) := by rw [pool_muted same, received']
    cases batch with
    | nil =>
      rw [drainLane_stop received, drainLane_stop received']
      exact same
    | cons m ms =>
      have alike := Program.run_indifferent (answer_unheeding settler) (round_heedless b partition (m :: ms))
        (withPool_muted same pool)
      rcases ran : (round b partition (m :: ms)).run (answer settler) { s with pool } with ⟨t, goesOn⟩
      rcases ran' : (round b partition (m :: ms)).run (answer settler) { s' with pool } with ⟨t', goesOn'⟩
      rw [ran, ran'] at alike
      obtain ⟨rfl, -, later⟩ : goesOn = goesOn' ∧ _ ∧ t.muted = t'.muted := alike
      rw [drainLane_go_on received (List.cons_ne_nil m ms) ran, drainLane_go_on received' (List.cons_ne_nil m ms) ran']
      cases goesOn with
      | true => exact ih later
      | false =>
        simp only [closing, pool_muted later]
        exact withPool_muted later _

theorem drain_muted (b : Backoff) {s s' : Station σ} (same : s.muted = s'.muted) :
    (s.drain settler b).muted = (s'.drain settler b).muted := by
  have lanes (ps : List Int) {s s' : Station σ} (same : s.muted = s'.muted) :
      (ps.foldl (fun s p => drainLane settler b p ((s.pool.lane p).queue.length + 1) s) s).muted =
        (ps.foldl (fun s p => drainLane settler b p ((s.pool.lane p).queue.length + 1) s) s').muted := by
    induction ps generalizing s s' with
    | nil => exact same
    | cons p ps ih =>
      simp only [List.foldl_cons, pool_muted same]
      exact ih (drainLane_muted settler b p _ same)
  have ended := lanes s'.pool.order same
  simp only [drain, pool_muted same, pool_muted ended]
  exact withPool_muted ended _

end Station

/-- A station whose dead-letter topic decides on each letter by itself. -/
structure Vetted (σ ε : Type) where
  station : Station σ
  /-- What happens from outside before each of the questions to come. -/
  news : Nat → List (Station.Change ε)
  /-- Which of the letters to come will be taken. -/
  verdicts : Nat → Bool

def Ask.handed? (topic : String) : Ask → Option Letter
  | .publish key e => some ⟨topic, key, e.text⟩
  | _ => none

def handedIn (topic : String) (xs : List Exchange) : List Letter := xs.filterMap fun x => x.1.handed? topic

theorem handedIn_cons (topic : String) (x : Exchange) (xs : List Exchange) :
    handedIn topic (x :: xs) = (x.1.handed? topic).toList ++ handedIn topic xs := by
  rw [handedIn, List.filterMap_cons]
  cases x.1.handed? topic <;> rfl

theorem handed_plain {q : Ask} (plain : q.Plain) (topic : String) : q.handed? topic = none := by
  cases q with
  | publish key e => exact absurd plain id
  | _ => rfl

theorem refused_plain {q : Ask} (plain : q.Plain) (r : q.Reply) : Exchange.refused ⟨q, r⟩ = false := by
  cases q with
  | publish key e => exact absurd plain id
  | _ => rfl

namespace Vetted

def later {β : Type} (f : Nat → β) : Nat → β := fun n => f (n + 1)

def chosen {β : Type} : (Nat → Bool) → List β → List β
  | _, [] => []
  | choice, x :: xs => if choice 0 then x :: chosen (later choice) xs else chosen (later choice) xs

variable {α σ ε : Type} (settler : Instant → Settler σ) (disturb : ε → σ → σ)

def answer (v : Vetted σ ε) : (q : Ask) → Vetted σ ε × q.Reply
  | .measure .publishFailure => ({ v with station := (v.station.answer settler (.measure .publishFailure)).1 }, ())
  | .publish key e =>
    let s := v.station.change disturb (.sink !v.verdicts 0)
    let (station, taken) := s.answer settler (.publish key e)
    ({ v with station, verdicts := later v.verdicts }, taken)
  | q =>
    let s := (v.news 0).foldl (Station.change disturb) v.station
    let (station, r) := s.answer settler q
    ({ v with station, news := later v.news }, r)

theorem answer_plain (v : Vetted σ ε) {q : Ask} (plain : q.Plain) :
    v.answer settler disturb q =
      ({ v with
          station := (((v.news 0).foldl (Station.change disturb) v.station).answer settler q).1
          news := later v.news },
        (((v.news 0).foldl (Station.change disturb) v.station).answer settler q).2) := by
  cases q with
  | publish key e => exact absurd plain id
  | measure m =>
    cases m with
    | publishFailure => exact absurd plain id
    | _ => rfl
  | _ => rfl

theorem answer_letter (v : Vetted σ ε) (key : String) (e : Envelope) :
    v.answer settler disturb (.publish key e) =
      ({ v with
          station := { v.station with
            sink := ⟨!v.verdicts 0, if v.verdicts 0 then
              v.station.sink.sent ++ [⟨v.station.deadLetterTopic, key, e.text⟩] else v.station.sink.sent⟩ }
          verdicts := later v.verdicts }, v.verdicts 0) := by
  cases taken : v.verdicts 0 <;>
    simp [answer, taken, Station.change, Station.answer, Wire.Sink.send, Except.toBool]

theorem unheeding : Program.Unheeding (answer settler disturb) (answer settler disturb) fun v v' : Vetted σ ε =>
    v.station.muted = v'.station.muted ∧ v.news = v'.news where
  plain := by
    rintro v v' q ⟨same, news⟩ plain
    rw [answer_plain settler disturb v plain, answer_plain settler disturb v' plain, ← news]
    obtain ⟨reply, alike⟩ := Station.answer_alike settler (Station.changes_alike disturb (v.news 0) same) plain
    exact ⟨reply, alike, rfl⟩
  letter := by
    rintro v v' key e ⟨same, news⟩
    rw [answer_letter, answer_letter]
    exact ⟨same, news⟩
  left := id
  right := id

theorem answer_topic (v : Vetted σ ε) (q : Ask) :
    let v' := (v.answer settler disturb q).1
    v'.station.deadLetterTopic = v.station.deadLetterTopic ∧
      ∀ letters, v'.station.sink.sent ++ chosen v'.verdicts letters =
        v.station.sink.sent ++ chosen v.verdicts ((q.handed? v.station.deadLetterTopic).toList ++ letters) := by
  rcases q.plain_or_letter with plain | ⟨key, e, rfl⟩ | rfl
  · obtain ⟨changed, same⟩ := Station.changes_topic disturb (v.news 0) v.station
    obtain ⟨answered, still⟩ := Station.answer_topic settler
      ((v.news 0).foldl (Station.change disturb) v.station) plain
    rw [answer_plain settler disturb v plain, handed_plain plain]
    refine ⟨answered.trans changed, fun letters => ?_⟩
    exact congrArg (· ++ chosen v.verdicts letters) (still.trans same)
  · rw [answer_letter]
    refine ⟨rfl, fun letters => ?_⟩
    cases taken : v.verdicts 0 <;> simp [taken, Ask.handed?, chosen]
  · exact ⟨rfl, fun _ => rfl⟩

theorem run_topic (p : Program α) (v : Vetted σ ε) :
    (p.run (answer settler disturb) v).1.station.sink.sent = v.station.sink.sent ++
      chosen v.verdicts (handedIn v.station.deadLetterTopic (p.transcript (answer settler disturb) v)) := by
  induction p generalizing v with
  | done a => exact (List.append_nil _).symm
  | ask q next ih =>
    obtain ⟨topic, posted⟩ := answer_topic settler disturb v q
    refine (ih _ _).trans ?_
    rw [topic, posted, Program.transcript, handedIn_cons]

theorem answer_refused (v : Vetted σ ε) (q : Ask) (topic : String) (letters : List Letter) :
    (chosen (fun n => !(v.answer settler disturb q).1.verdicts n) letters).length +
        (if Exchange.refused ⟨q, (v.answer settler disturb q).2⟩ then 1 else 0) =
      (chosen (fun n => !v.verdicts n) ((q.handed? topic).toList ++ letters)).length := by
  rcases q.plain_or_letter with plain | ⟨key, e, rfl⟩ | rfl
  · rw [answer_plain settler disturb v plain, refused_plain plain, handed_plain plain]
    rfl
  · have here : chosen (fun n => !v.verdicts n) (⟨topic, key, e.text⟩ :: letters) =
        if !v.verdicts 0 then ⟨topic, key, e.text⟩ :: chosen (fun n => !later v.verdicts n) letters
        else chosen (fun n => !later v.verdicts n) letters := rfl
    rw [answer_letter, Ask.handed?, Option.toList_some, List.singleton_append, here]
    cases v.verdicts 0 <;> rfl
  · rfl

theorem run_refused (topic : String) (p : Program α) (v : Vetted σ ε) :
    refusedIn (p.transcript (answer settler disturb) v) =
      (chosen (fun n => !v.verdicts n) (handedIn topic (p.transcript (answer settler disturb) v))).length := by
  induction p generalizing v with
  | done a => rfl
  | ask q next ih =>
    have later := ih (v.answer settler disturb q).2 (v.answer settler disturb q).1
    rw [refusedIn] at later ⊢
    rw [Program.transcript, List.countP_cons, later, handedIn_cons]
    exact v.answer_refused settler disturb q topic _

theorem run_dial (d : Dial) (p : Program α) (v : Vetted σ ε) :
    d.read (p.run (answer settler disturb) v).1.station.metrics =
      d.read v.station.metrics + .ofNat (d.weight.askedIn (p.transcript (answer settler disturb) v)) := by
  induction p generalizing v with
  | done a => exact (UInt64.add_zero _).symm
  | ask q next ih =>
    have counted : d.read (v.answer settler disturb q).1.station.metrics =
        d.read v.station.metrics + .ofNat (d.weight.asked q) := by
      rcases q.plain_or_letter with plain | ⟨key, e, rfl⟩ | rfl
      · rw [answer_plain settler disturb v plain]
        exact (d.read_answer settler _ q).trans (by rw [d.read_changes disturb])
      · rw [answer_letter]
        exact (UInt64.add_zero _).symm
      · exact d.adds v.station.metrics .publishFailure
    refine (ih _ _).trans ?_
    rw [counted, UInt64.add_assoc, ← UInt64.ofNat_add]
    rfl

end Vetted

theorem acknowledge_worth {w : Weight} (partition : Int) (batch : List Message) (v : Int) :
    (acknowledge partition batch).Keeps w.watch (fun v' _ => v' = v) v := by
  cases last : lastOffset batch with
  | none =>
    unfold acknowledge
    rw [last]
    rfl
  | some offset =>
    rw [acknowledge_eq last]
    refine Weight.keeps_light (q := .ack partition offset) (f := answered) (fun _ => rfl) fun r => ?_
    cases r with
    | done | broken => rfl
    | failed f =>
      exact Weight.keeps_light (q := .measure .ackFailure) (f := fun _ => .done true) (fun _ => rfl) fun _ => rfl

theorem reportedRound_worth {w : Weight} (b : Backoff) (partition : Int) (batch : List Message) (v : Int) :
    (reportedRound b partition batch).Keeps w.watch (fun v' r => v' = v + w.report r.1) v := by
  unfold reportedRound
  simp only [Program.bind_eq, Program.pure_eq]
  refine Weight.keeps_light (q := .account partition batch.length) (fun _ => rfl) fun _ => ?_
  refine Program.keeps_seq (Weight.processBatch_worth b batch v) ?_
  rintro _ report rfl
  exact Program.keeps_seq (acknowledge_worth partition batch _) fun _ _ same => same

theorem work_worth {w : Weight} (b : Backoff) (partition : Int) (batches : List (List Message)) (v : Int) :
    (work b partition batches).Keeps w.watch (fun v' reports => v' = v + (reports.map w.report).sum) v := by
  induction batches generalizing v with
  | nil => exact (Int.add_zero v).symm
  | cons batch rest ih =>
    refine Program.keeps_seq (reportedRound_worth b partition batch v) ?_
    rintro _ ⟨report, goesOn⟩ rfl
    cases goesOn with
    | false => simp
    | true =>
      refine Program.keeps_seq (ih _) ?_
      rintro _ reports rfl
      change _ = v + ((w.report report + (reports.map w.report).sum : Nat) : Int)
      push_cast
      ring

theorem work_failures {b : Backoff} {partition : Int} {batches : List (List Message)} {xs : List Exchange}
    {reports : List Report} (course : (work b partition batches).Leads xs (.done reports)) :
    Dial.publishFailures.weight.askedIn xs = refusedIn xs := by
  have weighed := Program.keeps_leads (work_worth (w := Dial.publishFailures.weight) b partition batches 0) course
  rw [Program.keeps_done, Weight.track_worth] at weighed
  have nothing : (reports.map Dial.publishFailures.weight.report).sum = 0 := by
    rw [report_countP (p := fun _ => false) ?_]
    · simp [Dial.publishFailures]
    · rintro (⟨r, n⟩ | reason) <;> rfl
  rw [nothing] at weighed
  change 0 + _ - _ * ((1 : Nat) : Int) = _ at weighed
  omega

def call? : Exchange → Option ((c : StoreCall) × c.Reply)
  | ⟨.store c, r⟩ => some ⟨c, r⟩
  | _ => none

def callsIn (xs : List Exchange) : List ((c : StoreCall) × c.Reply) := xs.filterMap call?

/-- Two runs of a worker that agree in everything but the fate of the letters. -/
structure Agree {σ ε : Type} (xs ys : List Exchange) (one other : Vetted σ ε × List Report) : Prop where
  reports : one.2 = other.2
  calls : callsIn xs = callsIn ys
  waits : waitsIn xs = waitsIn ys
  acks : acksIn xs = acksIn ys
  heard : heardIn xs = heardIn ys
  store : one.1.station.store = other.1.station.store
  sequence : one.1.station.sequence = other.1.station.sequence
  delays : one.1.station.delays = other.1.station.delays
  acked : one.1.station.acks = other.1.station.acks
  muted : one.1.station.muted = other.1.station.muted

theorem work_agree {σ ε : Type} (settler : Instant → Settler σ) (disturb : ε → σ → σ) (b : Backoff) (partition : Int)
    (batches : List (List Message)) {v v' : Vetted σ ε} (same : v.station.muted = v'.station.muted)
    (news : v.news = v'.news) :
    let p := work b partition batches
    let answer := Vetted.answer settler disturb
    Agree (p.transcript answer v) (p.transcript answer v') (p.run answer v) (p.run answer v') := by
  intro p answer
  obtain ⟨reports, heard, muted, -⟩ := Program.run_indifferent (Vetted.unheeding settler disturb)
    (work_heedless b partition batches) ⟨same, news⟩
  exact {
    reports, heard, muted
    calls := tells_heard (fun _ _ _ => rfl) rfl heard
    waits := tells_heard (fun _ _ _ => rfl) rfl heard
    acks := tells_heard (fun _ _ _ => rfl) rfl heard
    store := Station.shown_muted Station.store (fun _ => rfl) muted
    sequence := Station.shown_muted Station.sequence (fun _ => rfl) muted
    delays := Station.shown_muted Station.delays (fun _ => rfl) muted
    acked := Station.shown_muted Station.acks (fun _ => rfl) muted }

/-- Whatever the store does and whatever happens from outside, also when all workers take their batches from their
queues. -/
theorem settlement_heedless {σ ε : Type} (settler : Instant → Settler σ) (disturb : ε → σ → σ) (b : Backoff)
    (partition : Int) (batches : List (List Message)) (s : Station σ) (news : Nat → List (Station.Change ε)) :
    let start (verdicts : Nat → Bool) : Vetted σ ε := ⟨s, news, verdicts⟩
    let ended verdicts := (work b partition batches).run (Vetted.answer settler disturb) (start verdicts)
    let asked verdicts := (work b partition batches).transcript (Vetted.answer settler disturb) (start verdicts)
    (∀ verdicts verdicts', Agree (asked verdicts) (asked verdicts') (ended verdicts) (ended verdicts')) ∧
      (∃ letters, ∀ verdicts,
        (ended verdicts).1.station.sink.sent = s.sink.sent ++ Vetted.chosen verdicts letters ∧
        (ended verdicts).1.station.metrics.publishFailures =
          s.metrics.publishFailures + .ofNat (Vetted.chosen (fun n => !verdicts n) letters).length) ∧
      ∀ sink, ({ s with sink }.drain settler b).muted = (s.drain settler b).muted := by
  intro start ended asked
  have agree (verdicts verdicts' : Nat → Bool) :
      Agree (asked verdicts) (asked verdicts') (ended verdicts) (ended verdicts') := by
    have same : (start verdicts).station.muted = (start verdicts').station.muted := rfl
    exact work_agree settler disturb b partition batches same rfl
  refine ⟨agree, ⟨handedIn s.deadLetterTopic (asked fun _ => true), fun verdicts => ?_⟩,
    fun _ => Station.drain_muted settler b rfl⟩
  have handed : handedIn s.deadLetterTopic (asked verdicts) = handedIn s.deadLetterTopic (asked fun _ => true) :=
    tells_heard (fun _ _ _ => rfl) rfl (agree verdicts fun _ => true).heard
  rw [← handed]
  constructor
  · exact Vetted.run_topic settler disturb (work b partition batches) (start verdicts)
  · rw [← Vetted.run_refused settler disturb s.deadLetterTopic (work b partition batches) (start verdicts),
      ← work_failures (Program.leads_transcript _ _ _)]
    exact Vetted.run_dial settler disturb Dial.publishFailures (work b partition batches) (start verdicts)

example :
    let s := stand.opening [⟨1, 2, epoch⟩] []
    let batches := [[garbled 0 0, taking 0 1], [garbled 0 2]]
    let ended verdicts := (work twice 0 batches).run (Vetted.answer Faulty.settleMemory Faulty.arm)
      ⟨s, fun _ => [], verdicts⟩
    let one := ended fun n => n == 1
    let other := ended fun _ => true
    (one.1.station.sink.sent.length, other.1.station.sink.sent.length) = (1, 2) ∧
      one.1.station.metrics.publishFailures = 1 ∧ one.1.station.acks.done = [(0, 1), (0, 2)] ∧
      one.2 = [⟨[.deadLettered .undecodable, .settled .success 1], 1⟩, ⟨[.deadLettered .undecodable], 0⟩] ∧
      one.2 = other.2 := by
  decide +kernel

end CampaignSettlement.Settlement
