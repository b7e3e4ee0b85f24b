import Mathlib.Data.List.Forall2
import CampaignSettlement.Proofs.Settlement.Ranking
import CampaignSettlement.Proofs.Settlement.Upkeep

/-!
The log by partition. Of each partition the log has what the worker of the partition has committed, in the order in
which it did so, and it has nothing besides; transactions of other workers come in between and leave it so.
-/
namespace CampaignSettlement.Settlement

open Ledger (Entry Holdings Record)
open Wire (Message)

def entriesOf (past : List Round) (now : Round) : List Entry :=
  (past.flatMap fun r => r.desk.committed) ++ now.desk.committed

def recordsAt (y : Int) (rs : List Record) : List Record := rs.filter fun r => r.partition = some y

theorem recordsAt_append (y : Int) (rs more : List Record) :
    recordsAt y (rs ++ more) = recordsAt y rs ++ recordsAt y more :=
  List.filter_append ..

/-- The records `new` are what the workers have committed. -/
structure LoggedBy (past : Int → List Round) (now : Int → Round) (new : List Record) : Prop where
  own : ∀ y, List.Forall₂ Records (entriesOf (past y) (now y)) (recordsAt y new)
  placed : ∀ r ∈ new, ∃ y, r.partition = some y

/-- Beside what was there before, the log has what the workers have committed. -/
def Logged (old : List Record) : Knowledge := fun past now s =>
  ∃ new, s.holdings.records = old ++ new ∧ LoggedBy past now new

def Placed (y : Int) (m : Message) : Prop := m.receipt.partition = y

theorem sent_placed {ε : Type} (schedule : List (Move ε)) : Expected Placed (sentTo schedule) := by
  intro y m sent
  rw [sentTo, List.mem_filter] at sent
  have here : m.receipt.partition = y := of_decide_eq_true sent.2
  exact here

theorem entriesOf_closed (past : List Round) (now : Round) : entriesOf (past ++ [now]) .none = entriesOf past now := by
  have nothing : Round.none.desk.committed = [] := rfl
  simp [entriesOf, nothing]

theorem written_placed {ms : List Message} {d : Desk} (reads : d.Reads ms) {y : Int} (placed : ∀ m ∈ ms, Placed y m) :
    ∀ e ∈ d.written, e.partition = some y := by
  intro e member
  cases d with
  | idle | settled => cases member
  | opened work front step back =>
    obtain ⟨x, at_front, written⟩ := List.mem_filterMap.mp member
    obtain ⟨r, n, rfl⟩ := reads.own x at_front e written
    have at_desk : x.ticket ∈ (Desk.opened work front step back).tickets :=
      List.mem_append_left _ (List.mem_map_of_mem at_front)
    exact congrArg some (placed _ (reads_ticket reads at_desk).1)

/-- The log grows by what a desk has written, when it is committed, and by nothing else. -/
theorem act_log {k k' : Holdings} {d d' : Desk} (held : d.HeldIn k) (act : Act k d k' d') :
    ∃ es rs, k'.records = k.records ++ rs ∧ d'.committed = d.committed ++ es ∧ List.Forall₂ Records es rs ∧
      ∀ e ∈ es, e ∈ d.written := by
  have unchanged (same : k'.records = k.records) (committed : d'.committed = d.committed) :
      ∃ es rs, k'.records = k.records ++ rs ∧ d'.committed = d.committed ++ es ∧ List.Forall₂ Records es rs ∧
        ∀ e ∈ es, e ∈ d.written :=
    ⟨[], [], by simp [same], by simp [committed], .nil, by simp⟩
  cases act with
  | still work pending written committed => exact unchanged rfl committed
  | began | took | refused | wrote | returned => exact unchanged rfl rfl
  | @committed work w front created opened =>
    obtain ⟨v, same, -, written⟩ := held work rfl
    obtain rfl := Option.some.inj (opened.symm.trans same)
    have logged := records_written w.written created
    rw [written] at logged
    exact ⟨_, _, rfl, rfl, logged, fun e member => member⟩

theorem records_placed {es : List Entry} {rs : List Record} (h : List.Forall₂ Records es rs) {y : Int}
    (placed : ∀ e ∈ es, e.partition = some y) : ∀ r ∈ rs, r.partition = some y := by
  induction h with
  | nil => exact List.forall_mem_nil _
  | @cons e r es rs here rest ih =>
    intro s member
    rcases List.mem_cons.mp member with rfl | later
    · rw [here]
      exact placed e List.mem_cons_self
    · exact ih (fun e member => placed e (List.mem_cons_of_mem _ member)) s later

theorem recordsAt_own {y : Int} {rs : List Record} (placed : ∀ r ∈ rs, r.partition = some y) : recordsAt y rs = rs :=
  List.filter_eq_self.mpr fun r member => by simp [placed r member]

theorem recordsAt_other {y z : Int} (other : z ≠ y) {rs : List Record} (placed : ∀ r ∈ rs, r.partition = some y) :
    recordsAt z rs = [] :=
  List.filter_eq_nil_iff.mpr fun r member => by simp [placed r member, Ne.symm other]

theorem entriesOf_ask {past : List Round} {now : Round} {q : Ask} {reply : q.Reply} {es : List Entry}
    (committed : (now.ask q reply).desk.committed = now.desk.committed ++ es) :
    entriesOf past (now.ask q reply) = entriesOf past now ++ es := by
  rw [entriesOf, entriesOf, committed, List.append_assoc]

theorem loggedBy_ask {past : Int → List Round} {now : Int → Round} {new rs : List Record} {es : List Entry} {y : Int}
    {q : Ask} {reply : q.Reply} (h : LoggedBy past now new)
    (committed : ((now y).ask q reply).desk.committed = (now y).desk.committed ++ es)
    (written : List.Forall₂ Records es rs) (placed : ∀ e ∈ es, e.partition = some y) :
    LoggedBy past (Function.update now y ((now y).ask q reply)) (new ++ rs) := by
  have at_y := records_placed written placed
  refine ⟨?_, ?_⟩
  · intro z
    rw [recordsAt_append]
    by_cases own : z = y
    · subst own
      rw [Function.update_self, entriesOf_ask committed, recordsAt_own at_y]
      exact List.rel_append (h.own z) written
    · rw [Function.update_of_ne own, recordsAt_other own at_y, List.append_nil]
      exact h.own z
  · intro r member
    rcases List.mem_append.mp member with earlier | last
    · exact h.placed r earlier
    · exact ⟨y, at_y r last⟩

theorem loggedBy_same {past past' : Int → List Round} {now now' : Int → Round} {new : List Record}
    (h : LoggedBy past now new) (same : ∀ z, entriesOf (past' z) (now' z) = entriesOf (past z) (now z)) :
    LoggedBy past' now' new :=
  ⟨fun z => same z ▸ h.own z, h.placed⟩

def SameLog : Shift := fun s s' => s'.holdings.records = s.holdings.records

theorem logged_upkeep (b : Backoff) (old : List Record) : Upkeep b Placed SameLog (Logged old) where
  queues h pool signals := h
  begun := by
    rintro past now s y batch ⟨new, log, h⟩ fresh -
    refine ⟨new, log, loggedBy_same h ?_⟩
    intro z
    by_cases own : z = y
    · subst own
      rw [Function.update_self, fresh]
      rfl
    · rw [Function.update_of_ne own]
  asked := by
    rintro past now s y q next ⟨new, log, h⟩ accord placed course
    have reads : (now y).desk.Reads (now y).batch := round_reads course
    have act := accord.act (i := y) (round_allows course rfl) (answer_answered s q)
    obtain ⟨es, rs, grown, committed, written, of_desk⟩ := act_log (accord.held y) act
    refine ⟨new ++ rs, by rw [grown, log, List.append_assoc], loggedBy_ask h ?_ written ?_⟩
    · rw [round_desk_ask]
      exact committed
    · exact fun e member => written_placed reads placed e (of_desk e member)
  closed := by
    rintro past now s y goesOn ⟨new, log, h⟩ - -
    refine ⟨new, log, loggedBy_same h ?_⟩
    intro z
    by_cases own : z = y
    · subst own
      rw [Function.update_self, Function.update_self]
      exact entriesOf_closed _ _
    · rw [Function.update_of_ne own, Function.update_of_ne own]
  changed := by
    rintro past now s s' ⟨new, log, h⟩ same
    exact ⟨new, same.trans log, h⟩

end CampaignSettlement.Settlement
