import CampaignSettlement.Proofs.Settlement.Clearing
import CampaignSettlement.Proofs.Settlement.Untroubled

/-!
Failures that clear up are not seen afterwards. A batch that is committed in the end, after attempts that failed
for the time being, leaves the same behind as the batch that is settled at once from the same state; only the
number of attempts, the pauses between them and the count of retries tell the two apart.
-/
namespace CampaignSettlement.Settlement

open Calendar (Instant)
open Ledger (Faulty Holdings MemoryLedger Record Settler)
open Wire (Message)

theorem settles_unique {ms : List Message} {items items' : List Item} {front : List Passed}
    (first : Settles ms items front) (second : Settles ms items' front) : items = items' := by
  induction first generalizing items' with
  | nil =>
    cases second
    rfl
  | refused h rest ih =>
    cases second with
    | refused _ rest' => rw [ih rest']
    | written _ readable => cases h.symm.trans readable
    | unknown readable => cases h.symm.trans readable
  | written r readable own numbered rest ih =>
    cases second with
    | refused h => cases h.symm.trans readable
    | written _ _ _ _ rest' => rw [ih rest']
  | unknown readable own rest ih =>
    cases second with
    | refused h => cases h.symm.trans readable
    | unknown _ _ rest' => rw [ih rest']

section Attempts

variable {σ : Type} (settler : Instant → Settler σ)

theorem counts_frame {α : Type} {post : Trouble → α → Prop} {p : Program α} {v : Trouble}
    (h : p.Keeps (Trouble.watch Desk.Counts) post v) (s : Station σ) :
    ∃ store sequence, (p.run (Station.answer settler) s).1 = { s with store, sequence } := by
  induction p generalizing v s with
  | done a => exact ⟨s.store, s.sequence, rfl⟩
  | ask q next ih =>
    obtain ⟨store, sequence, same⟩ := ih _ (h.2 (s.answer settler q).2) (s.answer settler q).1
    refine ⟨store, sequence, same.trans ?_⟩
    have counts : Desk.Counts q := h.1
    cases q with
    | store c => rfl
    | draw => rfl
    | _ => cases counts

theorem aside_still {α : Type} {post : Trouble → α → Prop} {p : Program α} {v : Trouble}
    (h : p.Keeps (Trouble.watch Aside) post v) (s : Station σ) :
    let t := (p.run (Station.answer settler) s).1
    t.store = s.store ∧ t.sequence = s.sequence ∧ t.now = s.now := by
  induction p generalizing v s with
  | done a => exact ⟨rfl, rfl, rfl⟩
  | ask q next ih =>
    obtain ⟨store, sequence, now⟩ := ih _ (h.2 (s.answer settler q).2) (s.answer settler q).1
    have still : (s.answer settler q).1.store = s.store ∧ (s.answer settler q).1.sequence = s.sequence ∧
        (s.answer settler q).1.now = s.now := by
      have aside : Aside q := h.1
      cases q with
      | store c | draw | wait d => cases aside
      | ack partition offset =>
        simp only [Station.answer, Station.ack]
        split <;> exact ⟨rfl, rfl, rfl⟩
      | _ => exact ⟨rfl, rfl, rfl⟩
    exact ⟨store.trans still.1, sequence.trans still.2.1, now.trans still.2.2⟩

/-- The station `s` is like `t` but for its store, pauses that were made and as many retries. -/
def Beside (waits : List Duration) (s t : Station σ) : Prop :=
  ∃ store, s = { t with
    store
    delays := t.delays ++ waits
    metrics := { t.metrics with retries := t.metrics.retries + .ofNat waits.length } }

theorem beside_answer {waits : List Duration} {s t : Station σ} (h : Beside waits s t) {q : Ask} (aside : Aside q) :
    (s.answer settler q).2 = (t.answer settler q).2 ∧ Beside waits (s.answer settler q).1 (t.answer settler q).1 := by
  obtain ⟨store, rfl⟩ := h
  cases q with
  | store c | draw | wait d => cases aside
  | current | now | publish key e | account partition n => exact ⟨rfl, store, rfl⟩
  | ack partition offset =>
    simp only [Station.answer, Station.ack]
    split <;> exact ⟨rfl, store, rfl⟩
  | measure m =>
    refine ⟨rfl, store, ?_⟩
    cases m with
    | retry => cases aside
    | _ => rfl

theorem beside_run {α : Type} {post : Trouble → α → Prop} {p : Program α} {v : Trouble}
    (h : p.Keeps (Trouble.watch Aside) post v) {waits : List Duration} {s t : Station σ} (beside : Beside waits s t) :
    let answer := Station.answer settler
    (p.run answer s).2 = (p.run answer t).2 ∧ p.transcript answer s = p.transcript answer t ∧
      Beside waits (p.run answer s).1 (p.run answer t).1 := by
  induction p generalizing v s t with
  | done a => exact ⟨rfl, rfl, beside⟩
  | ask q next ih =>
    obtain ⟨reply, later⟩ := beside_answer settler beside h.1
    have rest := ih _ (h.2 (t.answer settler q).2) later
    dsimp only [Program.run, Program.transcript]
    rw [reply]
    obtain ⟨result, asked, beside⟩ := rest
    exact ⟨result, by rw [asked], beside⟩

/-- What one attempt comes to when it is run, of which `R` knows how its desk and its station go together. -/
structure Tried (R : Desk → Station σ → Prop) (ms : List Message) (s : Station σ) (asked : List Exchange)
    (t : Station σ) (slots : List Slot) (result : Except Ledger.Fault (List Item)) : Prop where
  fits : List.Forall₂ Slot.Of ms slots
  frame : ∃ store sequence, t = { s with store, sequence }
  failures : failuresIn asked = failuresOf result
  unsent : lettersIn asked = []
  failed : ∀ f, result = .error f → R (.idle (waitingOf slots)) t
  settled : ∀ items, result = .ok items → ∃ front, Settles ms items front ∧ R (.settled front) t

def paused (s : Station σ) (delay : Duration) : Station σ :=
  ((s.answer settler (.measure .retry)).1.answer settler (.wait delay)).1

theorem settle_committed (b : Backoff) (left n : Nat) (delay : Duration) {slots slots' : List Slot} {s t : Station σ}
    {items : List Item} (ran : (attempt slots).run (Station.answer settler) s = (t, slots', .ok items)) :
    let answer := Station.answer settler
    (settle b left n delay slots).run answer s =
        (((conclude items).run answer t).1, ⟨((conclude items).run answer t).2, n⟩) ∧
      (settle b left n delay slots).transcript answer s =
        (attempt slots).transcript answer s ++ (conclude items).transcript answer t := by
  intro answer
  unfold settle
  simp only [Program.bind_eq, Program.pure_eq, Program.run_bind, Program.transcript_bind, answer, ran]
  exact ⟨rfl, congrArg _ (List.append_nil _)⟩

theorem first_failure (b : Backoff) (left n : Nat) (delay : Duration) {slots : List Slot} {s : Station σ}
    {f : Ledger.Fault} (failed : failuresIn ((attempt slots).transcript (Station.answer settler) s) = [f]) :
    [f] <+: failuresIn ((settle b left n delay slots).transcript (Station.answer settler) s) := by
  unfold settle
  rw [Program.bind_eq, Program.transcript_bind, failuresIn_append, failed]
  exact List.prefix_append _ _

theorem settle_again (b : Backoff) (left n : Nat) (delay : Duration) {slots slots' : List Slot} {s t : Station σ}
    {f : Ledger.Fault} (transient : f.isTransient)
    (ran : (attempt slots).run (Station.answer settler) s = (t, slots', .error f)) :
    let answer := Station.answer settler
    let later := settle b left (n + 1) (b.next delay) slots'
    (settle b (left + 1) n delay slots).run answer s = later.run answer (paused settler t delay) ∧
      (settle b (left + 1) n delay slots).transcript answer s =
        (attempt slots).transcript answer s ++
          ⟨.measure .retry, ()⟩ :: ⟨.wait delay, ()⟩ :: later.transcript answer (paused settler t delay) := by
  intro answer later
  unfold settle
  simp only [Program.bind_eq, Program.run_bind, Program.transcript_bind, answer, ran, transient, if_true]
  exact ⟨rfl, rfl⟩

structure Recovers (b : Backoff) (left n : Nat) (delay : Duration) (slots : List Slot) (s t : Station σ)
    (items : List Item) (fs : List Ledger.Fault) : Prop where
  beside : Beside (b.delaysFrom fs.length delay) t { s with sequence := t.sequence }
  run : (settle b left n delay slots).run (Station.answer settler) s =
    (((conclude items).run (Station.answer settler) t).1,
      ⟨((conclude items).run (Station.answer settler) t).2, n + fs.length⟩)
  letters : lettersIn ((settle b left n delay slots).transcript (Station.answer settler) s) =
    lettersIn ((conclude items).transcript (Station.answer settler) t)

theorem recovers_now (b : Backoff) (left n : Nat) (delay : Duration) {slots slots' : List Slot} {s t : Station σ}
    {items : List Item} (ran : (attempt slots).run (Station.answer settler) s = (t, slots', .ok items))
    (frame : ∃ store sequence, t = { s with store, sequence })
    (fine : failuresIn ((attempt slots).transcript (Station.answer settler) s) = [])
    (unsent : lettersIn ((attempt slots).transcript (Station.answer settler) s) = []) :
    Recovers settler b left n delay slots s t items
      (failuresIn ((settle b left n delay slots).transcript (Station.answer settler) s)) := by
  obtain ⟨run, asked⟩ := settle_committed settler b left n delay ran
  have none : failuresIn ((settle b left n delay slots).transcript (Station.answer settler) s) = [] := by
    have course := (conclude items).leads_transcript (Station.answer settler) t
    have quiet := aside_failures (conclude_trouble items {}) course
    rw [asked, failuresIn_append, fine, quiet]
    rfl
  rw [none]
  obtain ⟨store, sequence, rfl⟩ := frame
  refine ⟨⟨store, ?_⟩, run, ?_⟩
  · simp [Backoff.delaysFrom]
  · rw [asked, lettersIn_append, unsent]
    rfl

theorem recovers_later {b : Backoff} {left n : Nat} {delay : Duration} {slots slots' : List Slot} {s t u : Station σ}
    {items : List Item} {f : Ledger.Fault} {fs : List Ledger.Fault} (transient : f.isTransient)
    (ran : (attempt slots).run (Station.answer settler) s = (t, slots', .error f))
    (frame : ∃ store sequence, t = { s with store, sequence })
    (unsent : lettersIn ((attempt slots).transcript (Station.answer settler) s) = [])
    (later : Recovers settler b left (n + 1) (b.next delay) slots' (paused settler t delay) u items fs) :
    Recovers settler b (left + 1) n delay slots s u items (f :: fs) := by
  obtain ⟨run, asked⟩ := settle_again settler b left n delay transient ran
  obtain ⟨store, sequence, rfl⟩ := frame
  obtain ⟨⟨store', beside⟩, run', letters⟩ := later
  refine ⟨⟨store', ?_⟩, ?_, ?_⟩
  · have retries (n : Nat) (x : UInt64) : x + 1 + .ofNat n = x + .ofNat (n + 1) := by
      rw [UInt64.ofNat_add, UInt64.add_comm (.ofNat n), ← UInt64.add_assoc]
      rfl
    rw [beside]
    simp [paused, Station.answer, Measure.apply, Backoff.delaysFrom, retries]
  · have number : n + 1 + fs.length = n + (f :: fs).length := by
      rw [List.length_cons]
      omega
    rw [run, run', number]
  · rw [asked, lettersIn_append, unsent]
    exact letters

variable {settler} {R : Desk → Station σ → Prop}
  (preserves : ∀ d s q, R d s → d.allows q → R (d.after q (s.answer settler q).2) (s.answer settler q).1)

include preserves

theorem attempt_run {ms : List Message} {slots : List Slot} (fits : List.Forall₂ Slot.Of ms slots) {s : Station σ}
    (start : R (.idle (waitingOf slots)) s) :
    let answer := Station.answer settler
    let out := (attempt slots).run answer s
    Tried R ms s ((attempt slots).transcript answer s) out.1 out.2.1 out.2.2 := by
  intro answer out
  have course := (attempt slots).leads_transcript answer s
  have troubled : Attempts {} _ out.2 := Program.keeps_leads (attempt_trouble slots {}) course
  rw [Trouble.track] at troubled
  obtain ⟨failures, letters⟩ := Trouble.mk.inj troubled
  obtain ⟨-, fits', ends⟩ := Program.keeps_leads (attempt_keeps fits []) course
  have related := Program.run_preserves (R := fun v s => R v.desk s) answer (attempt_keeps fits []) start
    fun v s q h allowed => preserves v.desk s q h allowed.1
  refine ⟨fits', counts_frame settler (attempt_trouble slots {}) s, failures, letters, ?_, ?_⟩
  · intro f failed
    change R _ out.1 at related
    rw [failed] at ends
    rwa [ends] at related
  · intro items settled
    change R _ out.1 at related
    rw [settled] at ends
    obtain ⟨front, desk, settles⟩ := ends
    rw [desk] at related
    exact ⟨front, settles, related⟩

theorem settle_run (b : Backoff) {ms : List Message} (left n : Nat) (delay : Duration) {slots : List Slot}
    (fits : List.Forall₂ Slot.Of ms slots) {s : Station σ} (start : R (.idle (waitingOf slots)) s) :
    let fs := failuresIn ((settle b left n delay slots).transcript (Station.answer settler) s)
    (∀ f ∈ fs, f.isTransient) → fs.length ≤ left →
      ∃ items front t, Settles ms items front ∧ R (.settled front) t ∧
        Recovers settler b left n delay slots s t items fs := by
  induction left generalizing n delay slots s with
  | zero =>
    intro fs transient few
    have tried := attempt_run preserves fits start
    rcases ran : (attempt slots).run (Station.answer settler) s with ⟨t, slots', result⟩
    simp only [ran] at tried
    cases result with
    | ok items =>
      obtain ⟨front, settles, related⟩ := tried.settled items rfl
      have recovers := recovers_now settler b 0 n delay ran tried.frame tried.failures tried.unsent
      exact ⟨items, front, t, settles, related, recovers⟩
    | error f =>
      have first : [f] <+: fs := first_failure settler b 0 n delay tried.failures
      exact absurd (Nat.le_trans first.length_le few) (Nat.not_succ_le_zero 0)
  | succ left ih =>
    intro fs transient few
    have tried := attempt_run preserves fits start
    rcases ran : (attempt slots).run (Station.answer settler) s with ⟨t, slots', result⟩
    simp only [ran] at tried
    cases result with
    | ok items =>
      obtain ⟨front, settles, related⟩ := tried.settled items rfl
      exact ⟨items, front, t, settles, related,
        recovers_now settler b (left + 1) n delay ran tried.frame tried.failures tried.unsent⟩
    | error f =>
      have first : [f] <+: fs := first_failure settler b (left + 1) n delay tried.failures
      have passing : f.isTransient := transient f (first.mem (by simp))
      obtain ⟨-, asked⟩ := settle_again settler b left n delay passing ran
      have rest : fs = f :: failuresIn ((settle b left (n + 1) (b.next delay) slots').transcript
          (Station.answer settler) (paused settler t delay)) := by
        have failures : failuresIn ((attempt slots).transcript (Station.answer settler) s) = [f] := tried.failures
        simp only [fs, asked, failuresIn_append, failures]
        rfl
      rw [rest] at transient few ⊢
      have again : R (.idle (waitingOf slots')) (paused settler t delay) :=
        preserves _ _ (.wait delay) (preserves _ _ (.measure .retry) (tried.failed f rfl) nofun) nofun
      obtain ⟨items, front, u, settles, related, recovers⟩ := ih (n + 1) (b.next delay) tried.fits again
        (fun g member => transient g (List.mem_cons_of_mem f member)) (Nat.le_of_succ_le_succ few)
      exact ⟨items, front, u, settles, related, recovers_later settler passing ran tried.frame tried.unsent recovers⟩

end Attempts

def finishing (items : List Item) : Program (List Outcome) :=
  (conclude items).bind fun outcomes => (closing outcomes).bind fun _ => .done outcomes

theorem finishing_trouble (items : List Item) (v : Trouble) :
    (finishing items).Keeps (Trouble.watch Aside) (fun _ _ => True) v := by
  refine Program.keeps_seq (conclude_trouble items v) ?_
  intro v' outcomes _
  exact Program.keeps_seq (closing_trouble outcomes v') fun _ _ _ => trivial

/-- A batch with a message that can be read, whose attempts fail for the time being and less often than it may try,
is committed. -/
structure Recovered {σ : Type} (settler : Instant → Settler σ) (b : Backoff) (ms : List Message) (s u t : Station σ)
    (items : List Item) (k : Nat) : Prop where
  beside : Beside (b.delaysFrom k b.initial) t { u with sequence := t.sequence }
  run : (processBatch b ms).run (Station.answer settler) s =
    (((finishing items).run (Station.answer settler) t).1, ⟨((finishing items).run (Station.answer settler) t).2, 1 + k⟩)
  letters : lettersIn ((processBatch b ms).transcript (Station.answer settler) s) =
    lettersIn ((screen ms).transcript (Station.answer settler) s) ++
      lettersIn ((finishing items).transcript (Station.answer settler) t)

theorem screened {σ : Type} (settler : Instant → Settler σ) (ms : List Message) (s : Station σ) :
    ((screen ms).run (Station.answer settler) s).2 = ms.map placeOf :=
  (Program.keeps_leads (screen_keeps ms ⟨.idle [], []⟩) ((screen ms).leads_transcript (Station.answer settler) s)).1

theorem beside_join {σ : Type} {waits : List Duration} {sequence : Sequence} {t t' u u' : Station σ}
    (first : Beside waits t { u with sequence }) (second : Beside [] t' { u' with sequence }) (start : Beside [] u u') :
    Beside waits t t' := by
  obtain ⟨store, rfl⟩ := first
  obtain ⟨store', rfl⟩ := second
  obtain ⟨store'', rfl⟩ := start
  exact ⟨store, by simp⟩

section Batches

variable {σ : Type} (settler : Instant → Settler σ)

theorem batch_attempted (b : Backoff) {ms : List Message} (some_readable : readable ms ≠ []) (s : Station σ) :
    let answer := Station.answer settler
    let u := ((screen ms).run answer s).1
    let attempts := settle b b.retries 1 b.initial (ms.map placeOf)
    let (t, report) := attempts.run answer u
    (processBatch b ms).run answer s = (((closing report.outcomes).run answer t).1, report) ∧
      (processBatch b ms).transcript answer s =
        (screen ms).transcript answer s ++
          (attempts.transcript answer u ++ (closing report.outcomes).transcript answer t) := by
  have messages : ((ms.map placeOf).filterMap Slot.ticket?).map Ticket.message = readable ms :=
    fits_readable (places_fit ms)
  have waiting : ((ms.map placeOf).filterMap Slot.ticket?).isEmpty = false := by
    refine List.isEmpty_eq_false_iff.mpr ?_
    intro none
    rw [none] at messages
    exact some_readable messages.symm
  simp only [processBatch_eq, Program.run_bind, Program.transcript_bind, screened, waiting, Bool.false_eq_true, if_false,
    Program.run, Program.transcript, List.append_nil, and_self]

variable {settler} {R : Desk → Station σ → Prop}
  (preserves : ∀ d s q, R d s → d.allows q → R (d.after q (s.answer settler q).2) (s.answer settler q).1)

include preserves

theorem batch_recovers (b : Backoff) {ms : List Message} (some_readable : readable ms ≠ []) {s : Station σ}
    (start : R (.idle (ms.filterMap ticketOf)) ((screen ms).run (Station.answer settler) s).1) :
    let failures := failuresIn ((processBatch b ms).transcript (Station.answer settler) s)
    (∀ f ∈ failures, f.isTransient) → failures.length < b.maxAttempts →
      ∃ items front t, Settles ms items front ∧ R (.settled front) t ∧
        Recovered settler b ms s ((screen ms).run (Station.answer settler) s).1 t items failures.length := by
  intro failures transient few
  obtain ⟨ran, asked⟩ := batch_attempted settler b some_readable s
  have quiet := aside_failures (screen_trouble ms {}) ((screen ms).leads_transcript (Station.answer settler) s)
  have same : failures = failuresIn ((settle b b.retries 1 b.initial (ms.map placeOf)).transcript
      (Station.answer settler) ((screen ms).run (Station.answer settler) s).1) := by
    have closed (os : List Outcome) (t : Station σ) :=
      aside_failures (closing_trouble os {}) ((closing os).leads_transcript (Station.answer settler) t)
    simp only [failures, asked, failuresIn_append, quiet, closed, List.nil_append, List.append_nil]
  have room : failures.length ≤ b.retries := Nat.le_sub_one_of_lt few
  rw [same] at transient room ⊢
  obtain ⟨items, front, t, settles, related, recovers⟩ := settle_run preserves b b.retries 1 b.initial (places_fit ms)
    (by rw [waitingOf_places]; exact start) transient room
  refine ⟨items, front, t, settles, related, recovers.beside, ?_, ?_⟩
  · rw [ran, recovers.run]
    simp only [finishing, Program.run_bind, Program.run]
  · rw [asked, lettersIn_append, lettersIn_append, recovers.letters, recovers.run]
    simp only [finishing, Program.transcript_bind, Program.transcript, lettersIn_append, List.append_nil]

end Batches

def Station.calm (s : Station (Faulty MemoryLedger)) : Station (Faulty MemoryLedger) :=
  { s with store := ⟨{ s.store.inner with mishaps := {} }, []⟩ }

theorem beside_calm (s : Station (Faulty MemoryLedger)) : Beside [] s s.calm := ⟨s.store, by simp [Station.calm]⟩

def anonymous (r : Record) : Record := { r with id := 0 }

/-- The batch that was retried `k` times has left the same behind as the one that was not. -/
structure Unnoticed (b : Backoff) (k : Nat) (retried calm : Station (Faulty MemoryLedger)) : Prop where
  campaigns : ∀ id, retried.store.inner.campaign? id = calm.store.inner.campaign? id
  records : retried.store.inner.records.map anonymous = calm.store.inner.records.map anonymous
  rest : ∃ store, retried = { calm with
    store
    delays := calm.delays ++ b.delaysFrom k b.initial
    metrics := { calm.metrics with retries := calm.metrics.retries + .ofNat k } }

theorem anonymous_rows {rows rows' : List (Int × Ledger.Entry)} (same : rows.map Prod.snd = rows'.map Prod.snd)
    (created : Instant) :
    (rows.map fun row => Record.ofEntry row.1 row.2 created).map anonymous =
      (rows'.map fun row => Record.ofEntry row.1 row.2 created).map anonymous := by
  have bare (rows : List (Int × Ledger.Entry)) :
      (rows.map fun row => Record.ofEntry row.1 row.2 created).map anonymous =
        (rows.map Prod.snd).map fun e => Record.ofEntry 0 e created := by
    simp [anonymous, Record.ofEntry]
  rw [bare, bare, same]

theorem clearings_agree {s₀ s₀' t t' : Station (Faulty MemoryLedger)} {promise : Shelf × List Passed}
    {front front' : List Passed} (first : Clearing s₀ promise (.settled front) t)
    (second : Clearing s₀' promise (.settled front') t') (records : s₀.holdings.records = s₀'.holdings.records)
    (time : s₀.store.inner.clock.getD s₀.now = s₀'.store.inner.clock.getD s₀'.now) :
    front = front' ∧ t.sequence = t'.sequence ∧ (∀ id, t.store.inner.campaign? id = t'.store.inner.campaign? id) ∧
      t.store.inner.records.map anonymous = t'.store.inner.records.map anonymous := by
  have same := (promised_settled first.promised).symm.trans (promised_settled second.promised)
  obtain ⟨shelf, fronts⟩ := Prod.mk.inj same
  obtain ⟨campaigns, last⟩ := Shelf.mk.inj shelf
  obtain ⟨rows, written, log⟩ := first.log front rfl
  obtain ⟨rows', written', log'⟩ := second.log front' rfl
  refine ⟨fronts, ?_, fun id => congrFun campaigns id, ?_⟩
  · exact congrArg Sequence.mk last
  · have entries : rows.map Prod.snd = rows'.map Prod.snd := by rw [written, written', fronts]
    change t.holdings.records.map anonymous = t'.holdings.records.map anonymous
    rw [log, log', records, time, List.map_append, List.map_append, anonymous_rows entries]

theorem unnoticed_of_beside {b : Backoff} {k : Nat} {t t' : Station (Faulty MemoryLedger)}
    (beside : Beside (b.delaysFrom k b.initial) t t')
    (campaigns : ∀ id, t.store.inner.campaign? id = t'.store.inner.campaign? id)
    (records : t.store.inner.records.map anonymous = t'.store.inner.records.map anonymous) : Unnoticed b k t t' := by
  refine ⟨campaigns, records, ?_⟩
  unfold Beside at beside
  rwa [Backoff.length_delaysFrom] at beside

theorem unread_unnoticed (s : Station (Faulty MemoryLedger)) (b : Backoff) {ms : List Message}
    (none_readable : readable ms = []) :
    let answer := Station.answer Faulty.settleMemory
    let batch := processBatch b ms
    (batch.run answer s).2 = (batch.run answer s.calm).2 ∧
      batch.transcript answer s = batch.transcript answer s.calm ∧
      Unnoticed b 0 (batch.run answer s).1 (batch.run answer s.calm).1 := by
  intro answer batch
  have quiet := unread_trouble b none_readable
  obtain ⟨report, asked, beside⟩ := beside_run Faulty.settleMemory quiet (beside_calm s)
  have still := (aside_still Faulty.settleMemory quiet s).1
  have still' := (aside_still Faulty.settleMemory quiet s.calm).1
  refine ⟨report, asked, unnoticed_of_beside beside ?_ ?_⟩
  · intro id
    rw [still, still']
    rfl
  · rw [still, still']
    rfl

theorem screen_agrees (s : Station (Faulty MemoryLedger)) (ms : List Message) :
    let answer := Station.answer Faulty.settleMemory
    let u := ((screen ms).run answer s).1
    let u' := ((screen ms).run answer s.calm).1
    u.holdings = u'.holdings ∧ u.sequence = u'.sequence ∧
      u.store.inner.clock.getD u.now = u'.store.inner.clock.getD u'.now := by
  intro answer u u'
  obtain ⟨store, sequence, now⟩ := aside_still Faulty.settleMemory (screen_trouble ms {}) s
  obtain ⟨store', sequence', now'⟩ := aside_still Faulty.settleMemory (screen_trouble ms {}) s.calm
  refine ⟨?_, sequence.trans sequence'.symm, ?_⟩
  · rw [Station.holdings, Station.holdings, store, store']
    rfl
  · rw [store, store', now, now']
    rfl

/-- However the attempts before the last one failed, as long as they failed for the time being. -/
theorem cleared_failures_unnoticed (s : Station (Faulty MemoryLedger)) (b : Backoff) (ms : List Message) :
    let answer := Station.answer Faulty.settleMemory
    let batch := processBatch b ms
    let failures := failuresIn (batch.transcript answer s)
    let retried := batch.run answer s
    let calm := batch.run answer s.calm
    (∀ f ∈ failures, f.isTransient) → failures.length < b.maxAttempts →
      retried.2.outcomes = calm.2.outcomes ∧ retried.2.attempts = calm.2.attempts + failures.length ∧
        (readable ms ≠ [] → calm.2.attempts = 1) ∧
        lettersIn (batch.transcript answer s) = lettersIn (batch.transcript answer s.calm) ∧
        Unnoticed b failures.length retried.1 calm.1 := by
  intro answer batch failures retried calm transient few
  by_cases none : readable ms = []
  · have quiet := unread_trouble b none
    have unfailed : failures = [] := aside_failures quiet (batch.leads_transcript answer s)
    obtain ⟨report, asked, unnoticed⟩ := unread_unnoticed s b none
    rw [unfailed]
    exact ⟨congrArg Report.outcomes report, congrArg Report.attempts report, absurd none, congrArg lettersIn asked,
      unnoticed⟩
  · obtain ⟨-, screened, beside⟩ := beside_run Faulty.settleMemory (screen_trouble ms {}) (beside_calm s)
    obtain ⟨holdings, sequence, created⟩ := screen_agrees s ms
    have unfailed : failuresIn (batch.transcript answer s.calm) = [] :=
      calm_failures (processBatch_keeps b ms) (s := s.calm) ⟨rfl, rfl, rfl, rfl⟩ nofun
    have few' : (failuresIn (batch.transcript answer s.calm)).length < b.maxAttempts := by
      rw [unfailed]
      exact Nat.lt_of_le_of_lt (Nat.zero_le _) few
    obtain ⟨items, front, t, settles, cleared, recovered⟩ := batch_recovers (fun _ _ _ h => clearing_answer h) b none
      (clearing_start _ _) transient few
    obtain ⟨items', front', t', settles', cleared', recovered'⟩ := batch_recovers
      (fun _ _ _ h => clearing_answer h) b none (clearing_start _ _) (by simp [unfailed, batch, answer]) few'
    rw [← holdings, ← sequence] at cleared'
    obtain ⟨rfl, drawn, campaigns, records⟩ :=
      clearings_agree cleared cleared' (congrArg Holdings.records holdings) created
    obtain rfl := settles_unique settles settles'
    rw [unfailed] at recovered'
    have together : Beside (b.delaysFrom failures.length b.initial) t t' := by
      have first := recovered.beside
      rw [drawn] at first
      exact beside_join first recovered'.beside beside
    have quiet := finishing_trouble items {}
    obtain ⟨outcomes, sent, stations⟩ := beside_run Faulty.settleMemory quiet together
    have still := (aside_still Faulty.settleMemory quiet t).1
    have still' := (aside_still Faulty.settleMemory quiet t').1
    simp only [retried, calm, batch, answer, recovered.run, recovered'.run, recovered.letters, recovered'.letters]
    refine ⟨outcomes, rfl, fun _ => rfl, ?_, unnoticed_of_beside stations ?_ ?_⟩
    · rw [screened, sent]
    · intro id
      rw [still, still']
      exact campaigns id
    · rw [still, still']
      exact records

def awayOnce : Station (Faulty MemoryLedger) :=
  stand.opening [⟨1, 1, epoch⟩] [⟨.append, .unavailable "away", 1, 1⟩]

theorem cleared_failures_unnoticed_append :
    let answer := Station.answer Faulty.settleMemory
    let batch := processBatch twice [taking 0 0, taking 0 1]
    let retried := batch.run answer awayOnce
    let calm := batch.run answer awayOnce.calm
    failuresIn (batch.transcript answer awayOnce) = [.unavailable "away"] ∧
      retried.2 = ⟨[.settled .success 1, .settled .fail 2], 2⟩ ∧ retried.2.outcomes = calm.2.outcomes ∧
      Unnoticed twice 1 retried.1 calm.1 := by
  have failures : failuresIn ((processBatch twice [taking 0 0, taking 0 1]).transcript
      (Station.answer Faulty.settleMemory) awayOnce) = [.unavailable "away"] := by decide +kernel
  obtain ⟨outcomes, -, -, -, unnoticed⟩ := cleared_failures_unnoticed awayOnce twice [taking 0 0, taking 0 1]
    (by rw [failures]; decide) (by rw [failures]; decide)
  rw [failures] at unnoticed
  exact ⟨failures, by decide +kernel, outcomes, unnoticed⟩

end CampaignSettlement.Settlement
