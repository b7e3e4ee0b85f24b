import CampaignSettlement.Proofs.Ledger.Table
import CampaignSettlement.Proofs.Wire.RoundTrip
import CampaignSettlement.Service.Admission

/-!
Admission against settlement. What admission answers, publishes and counts is one decision: an accepted call is
answered with its event, and settlement reads that event from the one letter that was sent for it.
-/
namespace CampaignSettlement.Service

open Wire (Letter Message Participation)

structure Call where
  refusing : Bool
  campaign : Int
  user : Int
deriving DecidableEq, Repr

namespace Call

def event (c : Call) : Participation := ⟨c.campaign, c.user⟩

def Accepted (c : Call) : Prop := 0 < c.campaign ∧ 0 < c.user ∧ c.refusing = false

instance (c : Call) : Decidable c.Accepted := inferInstanceAs (Decidable (_ ∧ _ ∧ _))

def outcome (c : Call) : String :=
  if c.Accepted then "admitted" else if 0 < c.campaign ∧ 0 < c.user then "failed" else "rejected"

def letters (topic : String) (c : Call) : List Letter :=
  if c.Accepted then [⟨topic, toString c.campaign, c.event.json.render⟩] else []

end Call

namespace Admission

def call (a : Admission) (c : Call) : Admission × Http.Response :=
  ({ a with sink := { a.sink with failing := c.refusing } } : Admission).participate c.campaign c.user

def after (a : Admission) (calls : List Call) : Admission := calls.foldl (fun a c => (a.call c).1) a

def left (a : Admission) (c : Call) : Admission :=
  { a with
    sink := ⟨c.refusing, a.sink.sent ++ c.letters a.topic⟩
    metrics := ⟨a.metrics.requests.add [c.outcome] 1⟩ }

theorem call_accepted (a : Admission) {c : Call} (accepted : c.Accepted) :
    a.call c = (a.left c, .json 202 c.event.json) := by
  obtain ⟨campaign, user, taking⟩ := accepted
  rw [call, participate, if_neg (by omega), if_neg (by omega)]
  simp [publish, Wire.participate, Wire.Sink.send, taking, left, count, Call.outcome, Call.letters, Call.Accepted,
    campaign, user, Call.event, Participation.key]

theorem call_refused (a : Admission) {c : Call} (refused : ¬c.Accepted) :
    (a.call c).1 = a.left c ∧ (a.call c).2.status ≠ 202 := by
  rw [call, participate]
  split
  case isTrue campaign =>
    have negative : ¬0 < c.campaign := by omega
    exact ⟨by simp [left, count, Call.outcome, Call.letters, refused, negative], (by decide : 400 ≠ 202)⟩
  case isFalse campaign =>
    split
    case isTrue user =>
      have negative : ¬0 < c.user := by omega
      exact ⟨by simp [left, count, Call.outcome, Call.letters, refused, negative], (by decide : 400 ≠ 202)⟩
    case isFalse user =>
      have positive : 0 < c.campaign ∧ 0 < c.user := by omega
      have refusing : c.refusing = true := by
        by_contra taking
        exact refused ⟨positive.1, positive.2, by simpa using taking⟩
      simp only [publish, Wire.participate, Wire.Sink.send, refusing, if_true]
      exact ⟨by simp [left, count, Call.outcome, Call.letters, refused, positive, refusing], (by decide : 500 ≠ 202)⟩

theorem call_left (a : Admission) (c : Call) : (a.call c).1 = a.left c := by
  by_cases accepted : c.Accepted
  · rw [a.call_accepted accepted]
  · exact (a.call_refused accepted).1

theorem after_snoc (a : Admission) (calls : List Call) (c : Call) :
    a.after (calls ++ [c]) = (a.after calls).left c := by
  rw [after, List.foldl_append, List.foldl_cons, List.foldl_nil, call_left]
  rfl

theorem topic_after (a : Admission) (calls : List Call) : (a.after calls).topic = a.topic := by
  induction calls using List.reverseRecOn with
  | nil => rfl
  | append_singleton calls c ih =>
    rw [after_snoc]
    exact ih

theorem sent_after (a : Admission) (calls : List Call) :
    (a.after calls).sink.sent = a.sink.sent ++ calls.flatMap (·.letters a.topic) := by
  induction calls using List.reverseRecOn with
  | nil => exact (List.append_nil _).symm
  | append_singleton calls c ih =>
    rw [after_snoc, left, topic_after, ih, List.flatMap_append, List.append_assoc]
    simp

def counted (a : Admission) (outcome : String) : UInt64 := a.metrics.requests.of [outcome]

theorem counted_left (a : Admission) (c : Call) (outcome : String) :
    (a.left c).counted outcome = if outcome = c.outcome then a.counted outcome + 1 else a.counted outcome := by
  rw [counted, left, Metrics.Counts.of, Metrics.Counts.add, Ledger.Table.get?_put]
  by_cases same : outcome = c.outcome
  · subst same
    simp [counted, Metrics.Counts.of]
  · simp [same, counted, Metrics.Counts.of]

theorem counted_after {a : Admission} (fresh : a.metrics = {}) (calls : List Call) (outcome : String) :
    (a.after calls).counted outcome = UInt64.ofNat (calls.countP fun c => decide (outcome = c.outcome)) := by
  induction calls using List.reverseRecOn with
  | nil =>
    rw [after, List.foldl_nil, counted, fresh]
    rfl
  | append_singleton calls c ih =>
    rw [after_snoc, counted_left, ih, List.countP_append, List.countP_singleton]
    split
    case isTrue same =>
      rw [if_pos (decide_eq_true same), UInt64.ofNat_add]
      rfl
    case isFalse other => rw [if_neg (by simpa using other), Nat.add_zero]

theorem length_letters (topic : String) (calls : List Call) :
    (calls.flatMap (·.letters topic)).length = calls.countP fun c => decide ("admitted" = c.outcome) := by
  induction calls with
  | nil => rfl
  | cons c calls ih =>
    have one : (c.letters topic).length = if "admitted" = c.outcome then 1 else 0 := by
      rw [Call.letters, Call.outcome]
      split
      · rfl
      · split <;> rfl
    rw [List.flatMap_cons, List.length_append, ih, one, List.countP_cons, Nat.add_comm]
    simp

theorem countP_outcomes (calls : List Call) :
    (calls.countP fun c => decide ("admitted" = c.outcome)) + (calls.countP fun c => decide ("rejected" = c.outcome)) +
      (calls.countP fun c => decide ("failed" = c.outcome)) = calls.length := by
  induction calls with
  | nil => rfl
  | cons c calls ih =>
    have one : (if "admitted" = c.outcome then 1 else 0) + (if "rejected" = c.outcome then 1 else 0) +
        (if "failed" = c.outcome then 1 else 0) = 1 := by
      rw [Call.outcome]
      split
      · rfl
      · split <;> rfl
    simp only [List.countP_cons, List.length_cons, decide_eq_true_eq]
    omega

/-- The answer to a call, what is sent for it to `topic`, and what settlement reads from that. -/
structure Handled (topic : String) (a : Admission) (c : Call) : Prop where
  status : (a.call c).2.status = 202 ↔ c.Accepted
  sent : c.Accepted → ∃ letter, (a.call c).1.sink.sent = a.sink.sent ++ [letter] ∧ letter.topic = topic ∧
    letter.key = toString c.campaign ∧ ∃ p : Participation, (a.call c).2 = .json 202 p.json ∧
      ∀ m : Message, m.payload = Text.Utf8.encode letter.payload → m.decode = .ok p
  kept : ¬c.Accepted → (a.call c).1.sink.sent = a.sink.sent

theorem decode_event {p : Participation} (fits : p.Fits) {m : Message}
    (payload : m.payload = Text.Utf8.encode p.json.render) : m.decode = .ok p := by
  rw [Message.decode, payload, Json.document_written (Participation.reads_json fits)]

theorem handled {topic : String} {a : Admission} (own : a.topic = topic) {c : Call} (fits : c.event.Fits) :
    Handled topic a c := by
  constructor
  case status =>
    by_cases accepted : c.Accepted
    · rw [a.call_accepted accepted]
      exact iff_of_true rfl accepted
    · exact iff_of_false (a.call_refused accepted).2 accepted
  case sent =>
    intro accepted
    refine ⟨⟨topic, toString c.campaign, c.event.json.render⟩, ?_, rfl, rfl, c.event, ?_, fun m => decode_event fits⟩
    · rw [call_left, left, Call.letters, if_pos accepted, own]
    · rw [a.call_accepted accepted]
  case kept =>
    intro refused
    rw [call_left, left, Call.letters, if_neg refused, List.append_nil]

/-- The counters after `calls` calls for which `sent` letters were sent: words of 64 bits, and the numbers themselves
as long as these fit. -/
structure Tallied (a : Admission) (sent calls : Nat) : Prop where
  admitted : a.counted "admitted" = UInt64.ofNat sent
  all : a.counted "admitted" + a.counted "rejected" + a.counted "failed" = UInt64.ofNat calls
  fitting : calls < 2 ^ 64 → (a.counted "admitted").toNat = sent ∧
    (a.counted "admitted").toNat + (a.counted "rejected").toNat + (a.counted "failed").toNat = calls

theorem tallied {a : Admission} (fresh : a.metrics = {}) (calls : List Call) :
    Tallied (a.after calls) (calls.flatMap (·.letters a.topic)).length calls.length := by
  have total := countP_outcomes calls
  rw [length_letters]
  constructor
  case admitted => exact counted_after fresh calls _
  case all =>
    simp only [counted_after fresh calls, ← UInt64.ofNat_add]
    rw [total]
  case fitting =>
    intro fits
    simp only [counted_after fresh calls, UInt64.toNat_ofNat']
    omega

theorem admission_agrees_with_settlement {a : Admission} (fresh : a.metrics = {}) {calls : List Call}
    (fit : ∀ c ∈ calls, c.event.Fits) :
    (∀ before c later, calls = before ++ c :: later → Handled a.topic (a.after before) c) ∧
      (∃ letters, (a.after calls).sink.sent = a.sink.sent ++ letters ∧
        Tallied (a.after calls) letters.length calls.length) ∧
      ∀ p : Participation, p.Fits →
        Json.document Participation.reader (Text.Utf8.encode p.json.render) = .ok p := by
  refine ⟨fun before c later split => ?_, ⟨_, a.sent_after calls, tallied fresh calls⟩, fun p fits => ?_⟩
  · exact handled (a.topic_after before) (fit c (by simp [split]))
  · exact Json.document_written (Participation.reads_json fits)

def threeCalls : List Call :=
  [⟨false, 7, 9223372036854775807⟩, ⟨true, 7, 1⟩, ⟨false, -9223372036854775808, 1⟩]

theorem admission_agrees_with_settlement_three :
    Handled "requests" { topic := "requests" } ⟨false, 7, 9223372036854775807⟩ ∧
      Tallied (({ topic := "requests" } : Admission).after threeCalls) 1 3 := by
  have fit : ∀ c ∈ threeCalls, c.event.Fits := by
    intro c member
    simp only [threeCalls, List.mem_cons, List.not_mem_nil, or_false] at member
    rcases member with rfl | rfl | rfl <;> exact ⟨by decide, by decide⟩
  obtain ⟨calls, ⟨letters, sent, tallied⟩, -⟩ :=
    admission_agrees_with_settlement (a := { topic := "requests" }) rfl fit
  have one : letters.length = 1 := (congrArg List.length sent).symm.trans (by decide +kernel)
  rw [one] at tallied
  exact ⟨calls [] _ _ rfl, tallied⟩

end Admission

end CampaignSettlement.Service
