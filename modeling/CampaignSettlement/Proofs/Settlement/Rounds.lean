import CampaignSettlement.Proofs.Settlement.Conservation
import CampaignSettlement.Settlement.Crew

/-!
The order of events in a round: the batch is taken out of the account, then settled, and only when every
message of it has its outcome is the greatest offset acknowledged, once, whatever the outcomes were.
-/
namespace CampaignSettlement.Settlement

open Wire (Message)

def Ask.ack? : Ask → Option (Int × Int)
  | .ack partition offset => some (partition, offset)
  | _ => none

def acksIn (xs : List Exchange) : List (Int × Int) := xs.filterMap fun x => x.1.ack?

def ackFor (partition : Int) (batch : List Message) : List (Int × Int) :=
  ((lastOffset batch).map (partition, ·)).toList

theorem acksIn_append (xs ys : List Exchange) : acksIn (xs ++ ys) = acksIn xs ++ acksIn ys :=
  List.filterMap_append

def Processed (b : Backoff) (batch : List Message) (xs : List Exchange) : Prop :=
  ∃ report, (processBatch b batch).Leads xs (.done report) ∧ report.outcomes.length = batch.length

/-- How far a round can have got. -/
inductive RoundLog (b : Backoff) (partition : Int) (batch : List Message) : List Exchange → Prop
  | fresh : RoundLog b partition batch []
  | settling {xs : List Exchange} {left : Program Report} (course : (processBatch b batch).Leads xs left) :
      RoundLog b partition batch (⟨.account partition batch.length, ()⟩ :: xs)
  | acked {xs ys : List Exchange} {offset : Int} (r : AckReply) (processed : Processed b batch xs)
      (last : lastOffset batch = some offset) (after : ys = [] ∨ ys = [⟨.measure .ackFailure, ()⟩]) :
      RoundLog b partition batch
        (⟨.account partition batch.length, ()⟩ :: (xs ++ ⟨.ack partition offset, r⟩ :: ys))

theorem processed_of_done {b : Backoff} {batch : List Message} {xs : List Exchange} {report : Report}
    (course : (processBatch b batch).Leads xs (.done report)) : Processed b batch xs :=
  ⟨report, course, ends_length (Program.keeps_leads (processBatch_keeps b batch) course)⟩

theorem processBatch_acks {b : Backoff} {batch : List Message} {xs : List Exchange} {left : Program Report}
    (course : (processBatch b batch).Leads xs left) : acksIn xs = [] := by
  refine List.filterMap_eq_nil_iff.mpr ?_
  intro x member
  obtain ⟨v, -, own⟩ := Program.asked_allowed (processBatch_keeps b batch) course x member
  cases asked : x.1 with
  | ack partition offset =>
    rw [asked] at own
    exact absurd trivial own
  | _ => rfl

theorem lastOffset_some {batch : List Message} (some_message : batch ≠ []) :
    ∃ offset, lastOffset batch = some offset := by
  cases batch with
  | nil => exact absurd rfl some_message
  | cons m ms => exact ⟨_, rfl⟩

def answered : AckReply → Program Bool
  | .done => .done true
  | .failed _ => .ask (.measure .ackFailure) fun _ => .done true
  | .broken => .done false

theorem acknowledge_eq {partition : Int} {batch : List Message} {offset : Int}
    (last : lastOffset batch = some offset) :
    acknowledge partition batch = .ask (.ack partition offset) answered := by
  unfold acknowledge
  rw [last]
  refine congrArg (Program.ask _) (funext ?_)
  intro r
  cases r <;> rfl

theorem acknowledge_goes_on {partition : Int} {batch : List Message} {offset : Int}
    (last : lastOffset batch = some offset) (goesOn : Bool) : acknowledge partition batch ≠ .done goesOn := by
  rw [acknowledge_eq last]
  intro same
  cases same

theorem answered_leads {r : AckReply} {zs : List Exchange} {rest : Program Bool}
    (course : (answered r).Leads zs rest) :
    (zs = [] ∨ zs = [⟨.measure .ackFailure, ()⟩]) ∧ (rest = .done false → r = .broken) := by
  cases r with
  | done =>
    cases course with
    | here => exact ⟨Or.inl rfl, fun same => by cases same⟩
  | failed f =>
    cases course with
    | here => exact ⟨Or.inl rfl, fun same => by cases same⟩
    | ask q next r course =>
      cases course with
      | here => exact ⟨Or.inr rfl, fun same => by cases same⟩
  | broken =>
    cases course with
    | here => exact ⟨Or.inl rfl, fun _ => rfl⟩

theorem acknowledge_leads {partition : Int} {batch : List Message} {offset : Int}
    (last : lastOffset batch = some offset) {ys : List Exchange} {rest : Program Bool}
    (course : (acknowledge partition batch).Leads ys rest) :
    ys = [] ∧ rest = acknowledge partition batch ∨
      ∃ r zs, ys = ⟨.ack partition offset, r⟩ :: zs ∧ (zs = [] ∨ zs = [⟨.measure .ackFailure, ()⟩]) ∧
        (rest = .done false → r = .broken) := by
  rw [acknowledge_eq last] at course ⊢
  cases course with
  | here => exact Or.inl ⟨rfl, rfl⟩
  | ask q next r course =>
    have later := answered_leads course
    exact Or.inr ⟨r, _, rfl, later⟩

variable {b : Backoff} {partition : Int} {batch : List Message} {asked : List Exchange} {rest : Program Bool}

theorem round_split (course : (round b partition batch).Leads asked rest) :
    asked = [] ∧ rest = round b partition batch ∨
      ∃ xs, asked = ⟨.account partition batch.length, ()⟩ :: xs ∧
        ((∃ left, (processBatch b batch).Leads xs left ∧ rest = left.bind fun _ => acknowledge partition batch) ∨
          ∃ ys zs report, xs = ys ++ zs ∧ (processBatch b batch).Leads ys (.done report) ∧
            (acknowledge partition batch).Leads zs rest) := by
  cases course with
  | here => exact Or.inl ⟨rfl, rfl⟩
  | @ask _ _ r xs _ course =>
    have later : ((processBatch b batch).bind fun _ => acknowledge partition batch).Leads xs rest := course
    exact Or.inr ⟨xs, rfl, Program.leads_bind later⟩

theorem round_log (some_message : batch ≠ []) (course : (round b partition batch).Leads asked rest) :
    RoundLog b partition batch asked := by
  obtain ⟨offset, last⟩ := lastOffset_some some_message
  rcases round_split course with ⟨rfl, -⟩ | ⟨xs, rfl, ⟨left, under_way, -⟩ | ⟨ys, zs, report, rfl, finished, later⟩⟩
  · exact .fresh
  · exact .settling under_way
  · rcases acknowledge_leads last later with ⟨rfl, -⟩ | ⟨r, zs, rfl, after, -⟩
    · rw [List.append_nil]
      exact .settling finished
    · exact .acked r (processed_of_done finished) last after

theorem acked_acks {xs ys : List Exchange} {offset : Int} (r : AckReply) (processed : Processed b batch xs)
    (last : lastOffset batch = some offset) (after : ys = [] ∨ ys = [⟨.measure .ackFailure, ()⟩]) :
    acksIn (⟨.account partition batch.length, ()⟩ :: (xs ++ ⟨.ack partition offset, r⟩ :: ys)) =
      ackFor partition batch := by
  obtain ⟨report, course, -⟩ := processed
  have quiet := processBatch_acks course
  have none : acksIn ys = [] := by rcases after with rfl | rfl <;> rfl
  change acksIn (xs ++ _) = _
  rw [acksIn_append, quiet]
  change (partition, offset) :: acksIn ys = _
  rw [none, ackFor, last]
  rfl

theorem round_ended (some_message : batch ≠ []) {goesOn : Bool}
    (course : (round b partition batch).Leads asked (.done goesOn)) :
    acksIn asked = ackFor partition batch ∧
      (goesOn = false → ∃ offset, ⟨.ack partition offset, .broken⟩ ∈ asked) := by
  obtain ⟨offset, last⟩ := lastOffset_some some_message
  rcases round_split course with ⟨-, same⟩ | ⟨xs, rfl, ⟨left, -, same⟩ | ⟨ys, zs, report, rfl, finished, later⟩⟩
  · cases same
  · cases left with
    | ask q next => cases same
    | done report => exact absurd same.symm (acknowledge_goes_on last goesOn)
  · rcases acknowledge_leads last later with ⟨-, same⟩ | ⟨r, zs, rfl, after, broken⟩
    · exact absurd same.symm (acknowledge_goes_on last goesOn)
    · constructor
      · exact acked_acks r (processed_of_done finished) last after
      · intro ends
        have ended : r = .broken := broken (congrArg Program.done ends)
        subst ended
        exact ⟨offset, by simp⟩

theorem roundLog_acks (log : RoundLog b partition batch asked) :
    acksIn asked = [] ∨ acksIn asked = ackFor partition batch := by
  cases log with
  | fresh => exact Or.inl rfl
  | settling course =>
    have quiet := processBatch_acks course
    exact Or.inl quiet
  | acked r processed last after => exact Or.inr (acked_acks r processed last after)

/-- Nothing is acknowledged before all messages have outcomes. -/
theorem roundLog_processed (log : RoundLog b partition batch asked) (acked : acksIn asked ≠ []) :
    ∃ xs, Processed b batch xs ∧ ⟨.account partition batch.length, ()⟩ :: xs <+: asked := by
  cases log with
  | fresh => exact absurd rfl acked
  | settling course =>
    have quiet := processBatch_acks course
    exact absurd quiet acked
  | @acked xs ys offset r processed last after =>
    exact ⟨xs, processed, ⟨.ack partition offset, r⟩ :: ys, rfl⟩

theorem roundWatch_refines : Desk.watch.Refines Desk.roundWatch Eq := by
  intro v v' q same allowed
  subst same
  exact ⟨allowed.1, fun _ => rfl⟩

theorem roundWatch_quiet (v : View) {q : Ask} (quiet : ¬ Desk.Counts q) (none : q.posted = []) :
    Desk.roundWatch.allows v q ∧ ∀ r, Desk.roundWatch.after v q r = v := by
  refine ⟨desk_allows_quiet v.desk quiet, ?_⟩
  intro r
  simp only [Desk.roundWatch, Desk.watch, desk_after_quiet v.desk quiet, none, List.append_nil]

theorem acknowledge_keeps (partition : Int) (batch : List Message) (v : View) :
    (acknowledge partition batch).Keeps Desk.roundWatch (fun v' _ => v' = v) v := by
  unfold acknowledge
  split
  · rfl
  · next offset last =>
    obtain ⟨allowed, same⟩ := roundWatch_quiet v (q := .ack partition offset) id rfl
    refine ⟨allowed, ?_⟩
    intro r
    rw [same]
    cases r with
    | done | broken => rfl
    | failed f =>
      obtain ⟨allowed, same⟩ := roundWatch_quiet v (q := .measure .ackFailure) id rfl
      exact ⟨allowed, same⟩

theorem round_keeps (b : Backoff) (partition : Int) (batch : List Message) :
    (round b partition batch).Keeps Desk.roundWatch (fun v _ => v.desk.work? = none)
      ⟨.idle (batch.filterMap ticketOf), []⟩ := by
  obtain ⟨allowed, same⟩ := roundWatch_quiet ⟨.idle (batch.filterMap ticketOf), []⟩
    (q := .account partition batch.length) id rfl
  refine ⟨allowed, ?_⟩
  intro r
  rw [same]
  change ((processBatch b batch).bind fun _ => acknowledge partition batch).Keeps _ _ _
  have settled := Program.keeps_refines roundWatch_refines rfl (processBatch_keeps b batch)
  refine Program.keeps_seq settled ?_
  rintro _ report ⟨v, rfl, ends⟩
  refine Program.keeps_mono (acknowledge_keeps partition batch v) ?_
  intro v' _ same
  subst same
  exact ends_closed ends

theorem round_allows (course : (round b partition batch).Leads asked rest) {q : Ask} {next : q.Reply → Program Bool}
    (asks : rest = .ask q next) : (deskAfter batch asked).allows q := by
  have keeps := Program.keeps_leads (round_keeps b partition batch) course
  rw [asks] at keeps
  exact keeps.1

theorem round_closed {goesOn : Bool} (course : (round b partition batch).Leads asked (.done goesOn)) :
    (deskAfter batch asked).work? = none :=
  Program.keeps_leads (round_keeps b partition batch) course

end CampaignSettlement.Settlement
