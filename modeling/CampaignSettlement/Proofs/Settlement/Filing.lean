import CampaignSettlement.Proofs.Settlement.Retrying
import CampaignSettlement.Proofs.Settlement.Trading

/-!
The ids of records. At a ledger at which no failure is armed and the time of records is pinned, a batch that runs
alone gives its entries the ids that follow on the last one, in order, and nothing else is written in between; so the
log after the batch is a function of the log before it and of the entries.
-/
namespace CampaignSettlement.Settlement

open Calendar (Instant)
open Ledger (Entry Fault Faulty MemoryLedger Record StoreCall Work)
open Wire (Message)

def rowsFrom : Int → List Entry → List (Int × Entry)
  | _, [] => []
  | n, e :: es => (n + 1, e) :: rowsFrom (n + 1) es

theorem rowsFrom_append (n : Int) (es fs : List Entry) :
    rowsFrom n (es ++ fs) = rowsFrom n es ++ rowsFrom (n + es.length) fs := by
  induction es generalizing n with
  | nil => simp [rowsFrom]
  | cons e es ih =>
    have next : n + 1 + (es.length : Int) = n + ((e :: es).length : Int) := by
      rw [List.length_cons]
      omega
    rw [List.cons_append, rowsFrom, ih, next]
    rfl

/-- The records of entries that were committed at the time `created`, after the id `n`. -/
def filed (created : Instant) (n : Int) (es : List Entry) : List Record :=
  (rowsFrom n es).map fun row => .ofEntry row.1 row.2 created

theorem filed_append (created : Instant) (n : Int) (es fs : List Entry) :
    filed created n (es ++ fs) = filed created n es ++ filed created (n + es.length) fs := by
  rw [filed, rowsFrom_append, List.map_append]
  rfl

namespace Desk

def Files (created : Instant) (n : Int) (log : List Record) (l : MemoryLedger) : Desk → Prop
  | .idle _ => l.lastRecord = n ∧ l.records = log
  | .opened work front _ _ => l.lastRecord = n + (front.filterMap Passed.entry).length ∧ l.records = log ∧
      ∃ w, l.works.get? work = some w ∧ w.written = rowsFrom n (front.filterMap Passed.entry)
  | .settled front => l.lastRecord = n + (front.filterMap Passed.entry).length ∧
      l.records = log ++ filed created n (front.filterMap Passed.entry)

end Desk

section Calls

variable {l : MemoryLedger}

theorem begin_files (calm : l.mishaps.Calm) : (l.begin).2 = .ok (l.lastWork + 1) ∧
    (l.begin).1.lastRecord = l.lastRecord ∧ (l.begin).1.records = l.records ∧
      (l.begin).1.works.get? (l.lastWork + 1) = some ⟨[], []⟩ := by
  simp [MemoryLedger.begin, calm.begin_passes, Ledger.Table.get?_put]

theorem append_files (calm : l.mishaps.Calm) {work : Nat} {w : Work} (opened : l.works.get? work = some w) (e : Entry) :
    (l.append work e).1.lastRecord = l.lastRecord + 1 ∧ (l.append work e).1.records = l.records ∧
      (l.append work e).1.works.get? work = some { w with written := w.written ++ [(l.lastRecord + 1, e)] } := by
  simp [MemoryLedger.append, calm.append_passes, calm.accepting, opened, Ledger.Table.get?_put]

theorem decrement_files (l : MemoryLedger) {work : Nat} {w : Work} (opened : l.works.get? work = some w)
    (campaign : Int) :
    (l.decrement work campaign).1.lastRecord = l.lastRecord ∧ (l.decrement work campaign).1.records = l.records ∧
      ∃ w', (l.decrement work campaign).1.works.get? work = some w' ∧ w'.written = w.written := by
  cases found : l.campaigns.get? campaign with
  | none => simp [MemoryLedger.decrement, opened, found]
  | some c =>
    by_cases empty : c.currentStock ≤ 0
    · simp [MemoryLedger.decrement, opened, found, empty]
    · simp [MemoryLedger.decrement, opened, found, empty, Ledger.Table.get?_put]

theorem commit_files (l : MemoryLedger) (now : Instant) {work : Nat} {w : Work} (opened : l.works.get? work = some w) :
    (l.commit now work).1.lastRecord = l.lastRecord ∧
      (l.commit now work).1.records =
        l.records ++ w.written.map fun row => .ofEntry row.1 row.2 (l.clock.getD now) := by
  simp [MemoryLedger.commit, MemoryLedger.close, opened]

end Calls

variable {created : Instant} {n : Int} {log : List Record}

theorem files_call {l : MemoryLedger} (calm : l.mishaps.Calm) (pinned : l.clock = some created) (now : Instant)
    {d : Desk} (sound : d.Sound) {c : StoreCall} (allowed : d.allows (.store c)) (files : d.Files created n log l)
    {v : c.Value} (answered : (MemoryLedger.settle now l c).2 = .ok v) :
    (d.after (.store c) (.ok v)).Files created n log (MemoryLedger.settle now l c).1 := by
  cases d with
  | settled front => exact absurd trivial allowed
  | idle tickets =>
    obtain rfl : c = .begin := by simpa using allowed trivial
    obtain ⟨reply, last, records, opened⟩ := begin_files calm
    obtain ⟨first, before⟩ := files
    obtain rfl : l.lastWork + 1 = v := Except.ok.inj (reply.symm.trans answered)
    exact ⟨last.trans (first.trans (Int.add_zero n).symm), records.trans before, _, opened, rfl⟩
  | opened work front step back =>
    obtain ⟨last, before, w, opened, written⟩ := files
    cases allowed trivial with
    | look t back =>
      cases v with
      | true => exact ⟨last, before, w, opened, written⟩
      | false =>
        change (Desk.opened work (front ++ [⟨t, none⟩]) .looking back).Files created n log l
        have same : (front ++ [Passed.mk t none]).filterMap Passed.entry = front.filterMap Passed.entry := by simp
        simp only [Desk.Files, same]
        exact ⟨last, before, w, opened, written⟩
    | take t back =>
      obtain ⟨still, records, w', opened', written'⟩ := decrement_files l opened t.event.campaign
      exact ⟨still.trans last, records.trans before, w', opened', written'.trans written⟩
    | @write r t m back numbered =>
      obtain ⟨next, records, opened'⟩ := append_files calm opened (t.entry r m)
      change (Desk.opened work (front ++ [⟨t, some (t.entry r m)⟩]) .looking back).Files created n log _
      have more : (front ++ [Passed.mk t (some (t.entry r m))]).filterMap Passed.entry =
          front.filterMap Passed.entry ++ [t.entry r m] := by simp
      simp only [Desk.Files, more]
      refine ⟨?_, records.trans before, _, opened', ?_⟩
      · rw [show (MemoryLedger.settle now l (.append work (t.entry r m))).1.lastRecord = _ from next, last]
        simp [Int.add_assoc]
      · rw [rowsFrom_append, written, last]
        rfl
    | commit =>
      obtain ⟨still, records⟩ := commit_files l now opened
      refine ⟨still.trans last, records.trans ?_⟩
      rw [before, written, pinned]
      rfl
    | rollback held back => exact absurd sound id

theorem files_quiet {l : MemoryLedger} {d : Desk} {q : Ask} (other : ∀ c, q ≠ .store c) (allowed : d.allows q)
    (files : d.Files created n log l) (r : q.Reply) : (d.after q r).Files created n log l := by
  by_cases counts : Desk.Counts q
  · cases q with
    | store c => exact absurd rfl (other c)
    | draw =>
      obtain ⟨work, front, result, t, back, rfl, -⟩ := draw_undrawn allowed
      exact files
    | _ => exact absurd counts id
  · rw [desk_after_quiet d counts]
    exact files

structure Filing (created : Instant) (s₀ : Station (Faulty MemoryLedger)) (promise : Shelf × List Passed) (d : Desk)
    (s : Station (Faulty MemoryLedger)) : Prop where
  clearing : Clearing s₀ promise d s
  calm : s.store.Calm
  pinned : s.store.inner.clock = some created
  sound : d.Sound
  files : d.Files created s₀.store.inner.lastRecord s₀.store.inner.records s.store.inner

theorem filing_answer {s₀ s : Station (Faulty MemoryLedger)} {promise : Shelf × List Passed} {d : Desk}
    (h : Filing created s₀ promise d s) {q : Ask} (allowed : d.allows q) :
    Filing created s₀ promise (d.after q (s.answer Faulty.settleMemory q).2) (s.answer Faulty.settleMemory q).1 := by
  have fine := calm_fine h.calm h.clearing.alone.held allowed
  constructor
  · exact clearing_answer h.clearing allowed
  · exact calm_answer h.calm q
  · rw [(answer_time s q).2]
    exact h.pinned
  · exact (sound_after h.sound allowed fine).1
  · cases q with
    | store c =>
      obtain ⟨v, answered⟩ := calm_succeeds h.calm h.clearing.alone.held allowed
      have plain := Faulty.settleMemory_uninjected s.now h.calm.uninjected c
      have reply : (MemoryLedger.settle s.now s.store.inner c).2 = .ok v := (congrArg Prod.snd plain).symm.trans answered
      rw [answered]
      change (d.after _ _).Files _ _ _ (Faulty.settleMemory s.now s.store c).1.inner
      rw [plain]
      exact files_call h.calm.mishaps h.pinned s.now h.sound allowed h.files reply
    | _ =>
      rw [answer_store _ s (by simp)]
      exact files_quiet (by simp) allowed h.files _

theorem filing_start {s : Station (Faulty MemoryLedger)} (calm : s.store.Calm)
    (pinned : s.store.inner.clock = some created) (tickets : List Ticket) :
    Filing created s ((Shelf.mk (campaignsIn s.holdings) s.sequence.last).serveAll tickets) (.idle tickets) s :=
  ⟨clearing_start s tickets, calm, pinned, trivial, rfl, rfl⟩

end CampaignSettlement.Settlement
