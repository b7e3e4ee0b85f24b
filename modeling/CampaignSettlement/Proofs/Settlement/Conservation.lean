import CampaignSettlement.Proofs.Settlement.Indexed

/-!
Every message of a batch has one outcome, and the outcomes account for all that left the batch: the texts
in the dead letters are those of the messages that were dead-lettered, and the entries of the committed
transaction are those of the messages that were settled. Nothing is assumed of the answers.
-/
namespace CampaignSettlement.Settlement

open Ledger (Entry Result)
open Wire (Message Participation)

/-- What the exchanges with a store come to: the entries of transactions that are open, each beside its
transaction, and those of transactions that were committed. A commit that fails applies nothing. -/
structure Tally where
  pending : List (Nat × Entry) := []
  committed : List Entry := []
  commits : Nat := 0

namespace Tally

def entriesOf (t : Tally) (work : Nat) : List Entry := (t.pending.filter (·.1 == work)).map Prod.snd

def without (t : Tally) (work : Nat) : List (Nat × Entry) := t.pending.filter (·.1 != work)

def after : Tally → (q : Ask) → q.Reply → Tally
  | t, .store .begin, .ok work => { t with pending := t.without work }
  | t, .store (.append work e), .ok _ => { t with pending := t.pending ++ [(work, e)] }
  | t, .store (.commit work), .ok _ => ⟨t.without work, t.committed ++ t.entriesOf work, t.commits + 1⟩
  | t, .store (.commit work), .error _ => { t with pending := t.without work }
  | t, .store (.rollback work), _ => { t with pending := t.without work }
  | t, _, _ => t

def watch : Watch Tally := ⟨fun _ _ => True, after⟩

/-- What the exchanges of a batch come to, told by its desk. -/
def OfDesk (d : Desk) (t : Tally) : Prop :=
  match d with
  | .idle _ => t.committed = [] ∧ t.commits = 0
  | .opened work _ _ _ => t.entriesOf work = d.written ∧ t.committed = [] ∧ t.commits = 0
  | .settled _ => t.committed = d.committed ∧ t.commits = 1

theorem entriesOf_without (t : Tally) (work : Nat) (committed : List Entry) (commits : Nat) :
    entriesOf ⟨t.without work, committed, commits⟩ work = [] := by
  simp [entriesOf, without, List.filter_filter]

theorem entriesOf_snoc (t : Tally) (work : Nat) (e : Entry) :
    entriesOf { t with pending := t.pending ++ [(work, e)] } work = t.entriesOf work ++ [e] := by
  simp [entriesOf]

theorem after_quiet (t : Tally) {q : Ask} (h : ¬ Desk.Counts q) (r : q.Reply) : t.after q r = t := by
  cases q with
  | store c => exact absurd trivial h
  | _ => rfl

theorem ofDesk_after {d : Desk} {t : Tally} {q : Ask} (related : OfDesk d t) (allowed : d.allows q)
    (r : q.Reply) : OfDesk (d.after q r) (t.after q r) := by
  have goes := desk_goes allowed r
  generalize d.after q r = d' at goes ⊢
  cases goes with
  | quiet d still r =>
    rw [after_quiet t still]
    exact related
  | unbegun => exact related
  | begun tickets work => exact ⟨entriesOf_without t work _ _, related⟩
  | failed front due within f =>
    cases due with
    | commit => exact absurd rfl within.1
    | rollback => exact absurd rfl within.2
    | _ => exact related
  | found | took | drew => exact related
  | missed work front u back =>
    obtain ⟨same, empty, never⟩ := related
    refine ⟨same.trans ?_, empty, never⟩
    exact (List.append_nil _).symm.trans (Desk.written_snoc work front u none .looking back).symm
  | @wrote work front result u n back numbered id =>
    obtain ⟨same, empty, never⟩ := related
    refine ⟨?_, empty, never⟩
    refine (entriesOf_snoc t work (u.entry result n)).trans ?_
    rw [same]
    exact (Desk.written_snoc work front u (some _) .looking back).symm
  | committed work front =>
    obtain ⟨same, empty, never⟩ := related
    refine ⟨?_, congrArg (· + 1) never⟩
    change t.committed ++ t.entriesOf work = _
    rw [empty, same]
    rfl
  | uncommitted | returned => exact related.2

theorem ofDesk_start (tickets : List Ticket) : OfDesk (.idle tickets) {} := ⟨rfl, rfl⟩

theorem refines_desk : Desk.watch.Refines watch fun v t => OfDesk v.desk t :=
  fun _ _ _ related allowed => ⟨trivial, fun r => ofDesk_after related allowed.1 r⟩

end Tally

def settledOf (m : Message) : Outcome → Option (Message × Result × Int)
  | .settled r n => some (m, r, n)
  | .deadLettered _ => none

def letterOf (m : Message) : Outcome → Option Posted
  | .deadLettered r => some (.of m r)
  | .settled .. => none

structure WritesDown (x : Message × Result × Int) (e : Entry) : Prop where
  event : x.1.decode = .ok ⟨e.campaign, e.user⟩
  result : e.result = x.2.1
  sequence : e.sequence = x.2.2
  partition : e.partition = some x.1.receipt.partition
  offset : e.offset = some x.1.receipt.offset
  sentAt : e.sentAt = x.1.receipt.sentAt

/-- A message is dead-lettered as undecodable when it cannot be read, and only then. -/
def Judged (m : Message) (o : Outcome) : Prop := o = .deadLettered .undecodable ↔ ∀ e, m.decode ≠ .ok e

theorem judged_readable {m : Message} {e : Participation} {o : Outcome} (readable : m.decode = .ok e)
    (other : o ≠ .deadLettered .undecodable) : Judged m o :=
  ⟨fun same => absurd same other, fun never => absurd readable (never e)⟩

theorem judged_unreadable {m : Message} {detail : String} (h : m.decode = .error detail) :
    Judged m (.deadLettered .undecodable) := by
  constructor
  · intro _ e readable
    rw [h] at readable
    cases readable
  · intro _
    rfl

theorem entry_writesDown {m : Message} {t : Ticket} (r : Result) (n : Int) (readable : m.decode = .ok t.event)
    (own : t.message = m) : WritesDown (m, r, n) (t.entry r n) := by
  subst own
  exact ⟨readable, rfl, rfl, rfl, rfl, rfl⟩

theorem settles_judged {ms : List Message} {items : List Item} {front : List Passed}
    (h : Settles ms items front) : List.Forall₂ Judged ms (items.map Item.outcome) := by
  induction h with
  | nil => exact .nil
  | refused h rest ih => exact .cons (judged_unreadable h) ih
  | written r readable own numbered rest ih => exact .cons (judged_readable readable (by simp [Item.outcome])) ih
  | unknown readable own rest ih => exact .cons (judged_readable readable (by simp [Item.outcome])) ih

theorem settles_entries {ms : List Message} {items : List Item} {front : List Passed}
    (h : Settles ms items front) :
    List.Forall₂ WritesDown ((ms.zip (items.map Item.outcome)).filterMap fun x => settledOf x.1 x.2)
      (front.filterMap Passed.entry) := by
  induction h with
  | nil => exact .nil
  | refused h rest ih => simpa [Item.outcome, settledOf] using ih
  | written r readable own numbered rest ih =>
    simpa [Item.outcome, settledOf] using ⟨entry_writesDown r _ readable own, ih⟩
  | unknown readable own rest ih => simpa [Item.outcome, settledOf] using ih

theorem refusals_unreadable {m : Message} {ms : List Message} {detail : String} (h : m.decode = .error detail) :
    refusals (m :: ms) = .of m .undecodable :: refusals ms := by
  simp [refusals, h, Except.toOption]

theorem refusals_readable {m : Message} {ms : List Message} {e : Participation} (h : m.decode = .ok e) :
    refusals (m :: ms) = refusals ms := by
  simp [refusals, h, Except.toOption]

theorem settles_posted {ms : List Message} {items : List Item} {front : List Passed}
    (h : Settles ms items front) :
    (refusals ms ++ items.flatMap Item.posted).Perm
      ((ms.zip (items.map Item.outcome)).filterMap fun x => letterOf x.1 x.2) := by
  induction h with
  | nil => exact .nil
  | refused h rest ih =>
    rw [refusals_unreadable h]
    exact .cons _ ih
  | written r readable own numbered rest ih =>
    rw [refusals_readable readable]
    exact ih
  | @unknown m ms items front t readable own rest ih =>
    rw [refusals_readable readable]
    subst own
    exact List.perm_middle.trans (.cons _ ih)

theorem givenUp_judged {ms : List Message} {slots : List Slot} {reason : Reason}
    (failed : reason = .retriesExhausted ∨ reason = .storeRejected) (fits : List.Forall₂ Slot.Of ms slots) :
    List.Forall₂ Judged ms (slots.map (Slot.givenUp reason)) := by
  induction fits with
  | nil => exact .nil
  | cons here rest ih =>
    cases here with
    | refused h => exact .cons (judged_unreadable h) ih
    | waiting readable own =>
      refine .cons (judged_readable readable ?_) ih
      rcases failed with rfl | rfl <;> simp [Slot.givenUp]

theorem givenUp_settled {ms : List Message} {slots : List Slot} {reason : Reason}
    (fits : List.Forall₂ Slot.Of ms slots) :
    (ms.zip (slots.map (Slot.givenUp reason))).filterMap (fun x => settledOf x.1 x.2) = [] := by
  induction fits with
  | nil => rfl
  | cons here rest ih => cases here <;> simpa [Slot.givenUp, settledOf] using ih

theorem givenUp_posted {ms : List Message} {slots : List Slot} {reason : Reason}
    (fits : List.Forall₂ Slot.Of ms slots) :
    (refusals ms ++ (waitingOf slots).map fun t => Posted.of t.message reason).Perm
      ((ms.zip (slots.map (Slot.givenUp reason))).filterMap fun x => letterOf x.1 x.2) := by
  induction fits with
  | nil => exact .nil
  | cons here rest ih =>
    cases here with
    | refused h =>
      rw [refusals_unreadable h]
      exact .cons _ ih
    | waiting readable own =>
      rw [refusals_readable readable]
      subst own
      exact List.perm_middle.trans (.cons _ ih)

/-- What the outcomes `os` of the messages `ms` say of everything that left the batch, of which `posted` are
the texts in dead letters and `tally` is what the store was told. -/
structure AccountsFor (ms : List Message) (os : List Outcome) (posted : List Posted) (tally : Tally) : Prop where
  one_each : os.length = ms.length
  judged : List.Forall₂ Judged ms os
  posted : posted.Perm ((ms.zip os).filterMap fun x => letterOf x.1 x.2)
  committed : List.Forall₂ WritesDown ((ms.zip os).filterMap fun x => settledOf x.1 x.2) tally.committed
  once : tally.commits ≤ 1

theorem ends_accountsFor {ms : List Message} {v : View} {os : List Outcome} {tally : Tally}
    (ends : Ends ms v os) (related : Tally.OfDesk v.desk tally) : AccountsFor ms os v.posted tally := by
  cases ends with
  | committed settles =>
    obtain ⟨committed, commits⟩ := related
    have judged := settles_judged settles
    refine ⟨judged.length_eq.symm, judged, settles_posted settles, ?_, Nat.le_of_eq commits⟩
    rw [committed]
    exact settles_entries settles
  | givenUp reason failed fits =>
    obtain ⟨committed, commits⟩ := related
    have judged := givenUp_judged failed fits
    refine ⟨judged.length_eq.symm, judged, givenUp_posted fits, ?_, by omega⟩
    rw [committed, givenUp_settled fits]
    exact .nil

theorem ends_length {ms : List Message} {v : View} {os : List Outcome} (ends : Ends ms v os) :
    os.length = ms.length := by
  cases ends with
  | committed settles => exact (settles_judged settles).length_eq.symm
  | givenUp reason failed fits => exact (givenUp_judged failed fits).length_eq.symm

theorem track_posted (v : View) (xs : List Exchange) :
    (Desk.watch.track v xs).posted = v.posted ++ xs.flatMap fun x => x.1.posted := by
  induction xs generalizing v with
  | nil => simp [Watch.track]
  | cons x xs ih => exact (ih _).trans (List.append_assoc _ _ _)

theorem processBatch_accountsFor {σ : Type} (answer : σ → (q : Ask) → σ × q.Reply) (s : σ) (b : Backoff)
    (ms : List Message) :
    AccountsFor ms ((processBatch b ms).run answer s).2.outcomes
      (((processBatch b ms).transcript answer s).flatMap fun x => x.1.posted)
      (Tally.watch.track {} ((processBatch b ms).transcript answer s)) := by
  have course := (processBatch b ms).leads_transcript answer s
  have keeps := processBatch_keeps b ms
  have ends := Program.keeps_leads keeps course
  have related := Program.track_refines Tally.refines_desk (Tally.ofDesk_start _) keeps course
  simpa [track_posted] using ends_accountsFor ends related

/-- For all ways of answering, with faults and refusals of any kind; and keeping the messages by index is the same,
whatever outcome is agreed on for an index without one. -/
theorem batch_accounts_for_messages {σ : Type} (answer : σ → (q : Ask) → σ × q.Reply) (s : σ) (b : Backoff)
    (ms : List Message) :
    AccountsFor ms ((processBatch b ms).run answer s).2.outcomes
        (((processBatch b ms).transcript answer s).flatMap fun x => x.1.posted)
        (Tally.watch.track {} ((processBatch b ms).transcript answer s)) ∧
      ∀ fallback, Indexed.processBatch fallback b ms = processBatch b ms :=
  ⟨processBatch_accountsFor answer s b ms, fun fallback => Indexed.processBatch_indexed fallback b ms⟩

end CampaignSettlement.Settlement
