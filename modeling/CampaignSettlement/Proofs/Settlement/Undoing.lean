import CampaignSettlement.Proofs.Settlement.Accord
import CampaignSettlement.Proofs.Settlement.Failures
import CampaignSettlement.Proofs.Settlement.Selling

/-!
A batch that is given up leaves the ledger as it was. Units that were taken in a transaction come back when it
is rolled back, so however far an attempt has got, the ledger is only a rollback away from where the batch
began; and what is left of a batch that was given up is one letter for all its messages that could be read.
-/
namespace CampaignSettlement.Settlement

open Ledger (Faulty Holdings MemoryLedger StoreCall)
open Ledger.MemoryLedger (takeUnit)
open Wire (Envelope Message)

structure SameBooks (k k' : Holdings) : Prop where
  campaigns : ∀ id, k.campaigns.get? id = k'.campaigns.get? id
  records : k.records = k'.records

theorem SameBooks.trans {k k' k'' : Holdings} (first : SameBooks k k') (second : SameBooks k' k'') : SameBooks k k'' :=
  ⟨fun id => (first.campaigns id).trans (second.campaigns id), first.records.trans second.records⟩

/-- As long as nothing is committed, a rollback leads back to `k₀`. -/
def Desk.Undoes (k₀ k : Holdings) : Desk → Prop
  | .idle _ => SameBooks k k₀
  | .opened work _ _ _ => ∀ w, k.works.get? work = some w → SameBooks (k.returned work w) k₀
  | .settled _ => True

theorem returned_took {k : Holdings} {work : Nat} {w : Ledger.Work} {id : Int} {c : Ledger.Campaign}
    (found : k.campaigns.get? id = some c) :
    SameBooks ((k.took work w id c).returned work { w with taken := w.taken ++ [id] }) (k.returned work w) := by
  refine ⟨?_, rfl⟩
  intro other
  simp only [Holdings.returned, Holdings.took, Holdings.get?_returned, Ledger.Table.get?_put, List.count_append]
  by_cases own : other = id
  · subst own
    have units : c.currentStock - 1 + (w.taken.count other + 1 : Int) = c.currentStock + w.taken.count other := by omega
    simp [found, takeUnit, units]
  · simp [own, Ne.symm own]

theorem undoes_act {k₀ k k' : Holdings} {d d' : Desk} (undoes : d.Undoes k₀ k) (unsettled : ∀ front, d ≠ .settled front)
    (act : Act k d k' d') : d'.Undoes k₀ k' := by
  cases act with
  | still work =>
    cases d with
    | settled front => exact absurd rfl (unsettled front)
    | idle tickets =>
      cases d' with
      | opened => cases work
      | _ => first | exact undoes | trivial
    | opened mine front step back =>
      cases d' with
      | opened own front' step' back' =>
        obtain rfl : own = mine := Option.some.inj work
        exact undoes
      | _ => cases work
  | began tickets =>
    intro w opened
    obtain rfl := Option.some.inj ((Ledger.Table.get?_put_self _ _ _).symm.trans opened)
    exact ⟨undoes.campaigns, undoes.records⟩
  | @took work w c front t back opened found stocked =>
    intro v here
    obtain rfl := Option.some.inj ((Ledger.Table.get?_put_self _ _ _).symm.trans here)
    exact (returned_took found).trans (undoes w opened)
  | refused => exact undoes
  | @wrote work w front r t n id back opened =>
    intro v here
    obtain rfl := Option.some.inj ((Ledger.Table.get?_put_self _ _ _).symm.trans here)
    exact ⟨(undoes w opened).campaigns, (undoes w opened).records⟩
  | committed => trivial
  | returned front step back opened => exact undoes _ opened

theorem undoes_after {k₀ k k' : Holdings} {d : Desk} (undoes : d.Undoes k₀ k) (held : d.HeldIn k) {q : Ask}
    {r : q.Reply} (allowed : d.allows q) (answered : Answered k q r k') : (d.after q r).Undoes k₀ k' := by
  have act := act_of_answered held allowed answered
  cases d with
  | settled front => trivial
  | _ => exact undoes_act undoes (by simp) act

theorem undoes_start (k : Holdings) (tickets : List Ticket) : (Desk.idle tickets).Undoes k k :=
  ⟨fun _ => rfl, rfl⟩

/-- What a batch that runs alone preserves at its desk and in its ledger. -/
structure Alone (s₀ : Station (Faulty MemoryLedger)) (d : Desk) (s : Station (Faulty MemoryLedger)) : Prop where
  held : d.HeldIn s.holdings
  undoes : d.Undoes s₀.holdings s.holdings
  stats : s.store.inner.stats = s₀.store.inner.stats

theorem alone_answer {s₀ s : Station (Faulty MemoryLedger)} {d : Desk} (h : Alone s₀ d s) {q : Ask}
    (allowed : d.allows q) :
    Alone s₀ (d.after q (s.answer Faulty.settleMemory q).2) (s.answer Faulty.settleMemory q).1 := by
  have answered := answer_answered s q
  refine ⟨act_heldIn h.held (act_of_answered h.held allowed answered), undoes_after h.undoes h.held allowed answered, ?_⟩
  rw [← h.stats]
  cases q with
  | store c => exact (Faulty.settleMemory_apart s.now s.store c).1
  | _ => rw [answer_store _ s (by simp)]

theorem batch_alone (s : Station (Faulty MemoryLedger)) (b : Backoff) (ms : List Message) :
    Alone s (deskAfter ms ((processBatch b ms).transcript (Station.answer Faulty.settleMemory) s))
      ((processBatch b ms).run (Station.answer Faulty.settleMemory) s).1 := by
  have start : Alone s (.idle (ms.filterMap ticketOf)) s := by
    refine ⟨?_, undoes_start _ _, rfl⟩
    intro work opened
    cases opened
  exact Program.run_preserves (R := fun v s' => Alone s v.desk s') (Station.answer Faulty.settleMemory)
    (processBatch_keeps b ms) start fun _ _ _ h allowed => alone_answer h allowed.1

structure Untouched (l l' : MemoryLedger) : Prop where
  campaigns : ∀ id, l'.campaign? id = l.campaign? id
  records : l'.records = l.records
  stats : l'.stats = l.stats

theorem groupLetters_none {es : List Envelope} {reason : Reason} (only : ∀ e ∈ es, e.reason = reason.name)
    (other : ¬ reason.OfGroup) : groupLetters es = [] := by
  refine List.filter_eq_nil_iff.mpr ?_
  intro e member
  rw [only e member]
  cases reason with
  | retriesExhausted => exact absurd (Or.inl rfl) other
  | storeRejected => exact absurd (Or.inr rfl) other
  | _ => decide

theorem groupLetters_one {e : Envelope} {reason : Reason} {ms : List Message} (letter : Reports e reason ms)
    (failed : reason.OfGroup) : groupLetters [e] = [e] := by
  refine List.filter_eq_self.mpr ?_
  intro e' member
  rw [List.mem_singleton.mp member, letter.reason]
  rcases failed with rfl | rfl <;> decide

theorem finishes_letter {b : Backoff} {ms : List Message} {v : Trouble} {report : Report}
    (finishes : Finishes b ms v report) {reason : Reason} (failed : reason.OfGroup)
    (member : .deadLettered reason ∈ report.outcomes) :
    ∃ e, groupLetters v.letters = [e] ∧ Reports e reason (readable ms) := by
  cases finishes with
  | unread none_readable refused =>
    exact absurd none_readable (givenUp_together (places_fit ms) failed member).2
  | attempted some_readable refused closes =>
    cases closes with
    | committed settles => exact absurd failed (settles_alone settles member)
    | givenUp fits given many letter =>
      obtain ⟨rfl, -⟩ := givenUp_together fits failed member
      refine ⟨_, ?_, letter⟩
      rw [groupLetters_append, groupLetters_none refused (by decide), groupLetters_one letter failed]
      rfl

theorem ends_idle {ms : List Message} {v : View} {os : List Outcome} (ends : Ends ms v os) {reason : Reason}
    (failed : reason.OfGroup) (member : .deadLettered reason ∈ os) : ∃ tickets, v.desk = .idle tickets := by
  cases ends with
  | committed settles => exact absurd failed (settles_alone settles member)
  | givenUp => exact ⟨_, rfl⟩

/-- Whatever the ledger, the policy and the failures are. -/
theorem failed_batch_leaves_ledger (s : Station (Faulty MemoryLedger)) (b : Backoff) (ms : List Message)
    {reason : Reason} (failed : reason.OfGroup) :
    let answer := Station.answer Faulty.settleMemory
    let stop := (processBatch b ms).run answer s
    .deadLettered reason ∈ stop.2.outcomes →
      Untouched s.store.inner stop.1.store.inner ∧
        ∃ e, groupLetters (lettersIn ((processBatch b ms).transcript answer s)) = [e] ∧
          Reports e reason (readable ms) := by
  intro answer stop member
  have course := (processBatch b ms).leads_transcript answer s
  have alone := batch_alone s b ms
  obtain ⟨tickets, idle⟩ := ends_idle (Program.keeps_leads (processBatch_keeps b ms) course) failed member
  have undone := alone.undoes
  rw [deskAfter, idle] at undone
  exact ⟨⟨undone.campaigns, undone.records, alone.stats⟩, finishes_letter (batch_finishes course) failed member⟩

def refusedCommit : List (Ledger.Injection Ledger.CallKind Ledger.Fault) :=
  [⟨.append, .unavailable "away", 1, 1⟩, ⟨.commit, .rejected "refused", 0, 1⟩]

theorem failed_batch_leaves_ledger_commit :
    let s := stand.opening [⟨1, 2, epoch⟩] refusedCommit
    let ms := [taking 0 0, taking 0 1]
    let answer := Station.answer Faulty.settleMemory
    let stop := (processBatch twice ms).run answer s
    Reason.storeRejected.OfGroup ∧ .deadLettered .storeRejected ∈ stop.2.outcomes ∧ stop.2.attempts = 2 ∧
      Untouched s.store.inner stop.1.store.inner ∧
        ∃ e, groupLetters (lettersIn ((processBatch twice ms).transcript answer s)) = [e] ∧
          Reports e .storeRejected (readable ms) := by
  have member : .deadLettered .storeRejected ∈ ((processBatch twice [taking 0 0, taking 0 1]).run
      (Station.answer Faulty.settleMemory) (stand.opening [⟨1, 2, epoch⟩] refusedCommit)).2.outcomes := by
    decide +kernel
  refine ⟨by decide, member, by decide +kernel, ?_⟩
  exact failed_batch_leaves_ledger _ twice _ (by decide) member

end CampaignSettlement.Settlement
