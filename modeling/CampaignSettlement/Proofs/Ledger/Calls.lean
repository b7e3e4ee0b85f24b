import CampaignSettlement.Ledger.Arming
import CampaignSettlement.Proofs.Ledger.Table

/-!
What a call of settlement does to a ledger in memory, whatever failures are armed. Only the campaigns, the
log and the open transactions are looked at; the arming of failures does not touch these.
-/
namespace CampaignSettlement.Ledger

open Calendar (Instant)
open MemoryLedger (takeUnit returnUnit)

structure Holdings where
  campaigns : Table Int Campaign
  records : List Record
  works : Table Nat Work
  lastWork : Nat

def MemoryLedger.holdings (l : MemoryLedger) : Holdings := ⟨l.campaigns, l.records, l.works, l.lastWork⟩

namespace Holdings

def begun (k : Holdings) : Holdings :=
  { k with works := k.works.put (k.lastWork + 1) ⟨[], []⟩, lastWork := k.lastWork + 1 }

def took (k : Holdings) (work : Nat) (w : Work) (campaign : Int) (c : Campaign) : Holdings :=
  { k with
    campaigns := k.campaigns.put campaign (takeUnit c)
    works := k.works.put work { w with taken := w.taken ++ [campaign] } }

def wrote (k : Holdings) (work : Nat) (w : Work) (id : Int) (e : Entry) : Holdings :=
  { k with works := k.works.put work { w with written := w.written ++ [(id, e)] } }

def committed (k : Holdings) (work : Nat) (w : Work) (created : Instant) : Holdings :=
  { k with
    records := k.records ++ w.written.map fun row => .ofEntry row.1 row.2 created
    works := k.works.filter (·.1 != work) }

def returned (k : Holdings) (work : Nat) (w : Work) : Holdings :=
  { k with
    campaigns := w.taken.foldl (fun t id => t.update id returnUnit) k.campaigns
    works := k.works.filter (·.1 != work) }

/-- A call with its answer, and what is held after it. -/
inductive Effect (k : Holdings) : (c : StoreCall) → c.Reply → Holdings → Prop
  /-- A commit or rollback that changes nothing was asked of a transaction that is not open. -/
  | failed {c : StoreCall} (f : Fault)
      (absent : ∀ work, c = .commit work ∨ c = .rollback work → k.works.get? work = none) : Effect k c (.error f) k
  | begun : Effect k .begin (.ok (k.lastWork + 1)) k.begun
  | known (work : Nat) (campaign : Int) :
      Effect k (.known work campaign) (.ok (k.campaigns.get? campaign).isSome) k
  | refused (work : Nat) {campaign : Int} (none_left : ∀ c ∈ k.campaigns.get? campaign, c.currentStock ≤ 0) :
      Effect k (.decrement work campaign) (.ok false) k
  | took {work : Nat} {w : Work} {campaign : Int} {c : Campaign} (opened : k.works.get? work = some w)
      (found : k.campaigns.get? campaign = some c) (stocked : 0 < c.currentStock) :
      Effect k (.decrement work campaign) (.ok true) (k.took work w campaign c)
  | wrote {work : Nat} {w : Work} (id : Int) (e : Entry) (opened : k.works.get? work = some w) :
      Effect k (.append work e) (.ok id) (k.wrote work w id e)
  | committed {work : Nat} {w : Work} (created : Instant) (opened : k.works.get? work = some w) :
      Effect k (.commit work) (.ok ()) (k.committed work w created)
  | undone {work : Nat} {w : Work} (f : Fault) (opened : k.works.get? work = some w) :
      Effect k (.commit work) (.error f) (k.returned work w)
  | returned {work : Nat} {w : Work} (r : Except Fault Unit) (opened : k.works.get? work = some w) :
      Effect k (.rollback work) r (k.returned work w)

theorem Effect.failed_midway (k : Holdings) {c : StoreCall} (f : Fault)
    (midway : ∀ work, c ≠ .commit work ∧ c ≠ .rollback work) : Effect k c (.error f) k :=
  .failed f fun work closing => closing.elim (absurd · (midway work).1) (absurd · (midway work).2)

end Holdings

namespace MemoryLedger

open Holdings (Effect)

theorem begin_effect (l : MemoryLedger) : Effect l.holdings .begin l.begin.2 l.begin.1.holdings := by
  unfold begin
  cases l.mishaps.begins.strike with
  | mk struck left =>
    cases struck with
    | true => exact .failed_midway _ _ (by simp)
    | false => exact .begun

theorem decrement_effect (l : MemoryLedger) (work : Nat) (campaign : Int) :
    Effect l.holdings (.decrement work campaign) (l.decrement work campaign).2
      (l.decrement work campaign).1.holdings := by
  unfold decrement
  cases opened : l.works.get? work with
  | none => exact .failed_midway _ _ (by simp)
  | some w =>
    cases found : l.campaigns.get? campaign with
    | none => exact .refused work (by simp [holdings, found])
    | some c =>
      by_cases empty : c.currentStock ≤ 0
      · simp only [empty, if_true]
        exact .refused work (by simpa [holdings, found] using empty)
      · simp only [empty, if_false]
        exact .took opened found (by omega)

theorem append_effect (l : MemoryLedger) (work : Nat) (e : Entry) :
    Effect l.holdings (.append work e) (l.append work e).2 (l.append work e).1.holdings := by
  unfold append
  cases l.mishaps.appends.strike with
  | mk struck left =>
    cases struck with
    | true => exact .failed_midway _ _ (by simp)
    | false =>
      by_cases rejected : l.mishaps.rejectAppends
      · simp only [rejected, Bool.false_eq_true, if_true, if_false]
        exact .failed_midway _ _ (by simp)
      · simp only [rejected, Bool.false_eq_true, if_false]
        cases opened : l.works.get? work with
        | none => exact .failed_midway _ _ (by simp)
        | some w => exact .wrote _ e opened

theorem commit_effect (l : MemoryLedger) (now : Instant) (work : Nat) :
    Effect l.holdings (.commit work) (l.commit now work).2 (l.commit now work).1.holdings := by
  unfold commit
  cases opened : l.works.get? work with
  | none => exact .failed _ (by simp [holdings, opened])
  | some w => exact .committed _ opened

theorem rollback_effect (l : MemoryLedger) (work : Nat) {r : Except Fault Unit}
    (answer : r = (l.rollback work).2 ∨ ∃ f, r = .error f) :
    Effect l.holdings (.rollback work) r (l.rollback work).1.holdings := by
  unfold rollback at answer ⊢
  cases opened : l.works.get? work with
  | some w => exact .returned r opened
  | none =>
    rw [opened] at answer
    rcases answer with rfl | ⟨f, rfl⟩ <;> exact .failed _ (by simp [holdings, opened])

theorem undone_effect (l : MemoryLedger) (work : Nat) (f : Fault) :
    Effect l.holdings (.commit work) (.error f) (l.rollback work).1.holdings := by
  unfold rollback
  cases opened : l.works.get? work with
  | none => exact .failed f (by simp [holdings, opened])
  | some w => exact .undone f opened

theorem settle_effect (now : Instant) (l : MemoryLedger) (c : StoreCall) :
    Effect l.holdings c (settle now l c).2 (settle now l c).1.holdings := by
  cases c with
  | begin => exact l.begin_effect
  | known work campaign => exact .known work campaign
  | decrement work campaign => exact l.decrement_effect work campaign
  | append work e => exact l.append_effect work e
  | commit work => exact l.commit_effect now work
  | rollback work => exact l.rollback_effect work (Or.inl rfl)

/-- Settlement has nothing to do with the daily rows, and does not pin the time of records. -/
theorem settle_apart (now : Instant) (l : MemoryLedger) (c : StoreCall) :
    (settle now l c).1.stats = l.stats ∧ (settle now l c).1.totalsFault = l.totalsFault ∧
      (settle now l c).1.clock = l.clock := by
  cases c with
  | known work campaign => exact ⟨rfl, rfl, rfl⟩
  | begin =>
    simp only [settle, begin]
    split <;> exact ⟨rfl, rfl, rfl⟩
  | decrement work campaign =>
    simp only [settle, decrement]
    split
    · exact ⟨rfl, rfl, rfl⟩
    · exact ⟨rfl, rfl, rfl⟩
    · split <;> exact ⟨rfl, rfl, rfl⟩
  | append work e =>
    simp only [settle, append]
    split
    · exact ⟨rfl, rfl, rfl⟩
    · split
      · exact ⟨rfl, rfl, rfl⟩
      · split <;> exact ⟨rfl, rfl, rfl⟩
  | commit work =>
    simp only [settle, commit]
    split <;> exact ⟨rfl, rfl, rfl⟩
  | rollback work =>
    simp only [settle, rollback]
    split <;> exact ⟨rfl, rfl, rfl⟩

end MemoryLedger

namespace Faulty

open Holdings (Effect)

def holdings (f : Faulty MemoryLedger) : Holdings := f.inner.holdings

theorem settleMemory_effect (now : Instant) (f : Faulty MemoryLedger) (c : StoreCall) :
    Effect f.holdings c (settleMemory now f c).2 (settleMemory now f c).1.holdings := by
  unfold settleMemory settle
  cases Injection.strike c.kind f.injections with
  | mk struck left =>
    cases struck with
    | none => exact f.inner.settle_effect now c
    | some fault =>
      cases c with
      | commit work => exact f.inner.undone_effect work fault
      | rollback work => exact f.inner.rollback_effect work (Or.inr ⟨fault, rfl⟩)
      | _ => exact .failed_midway _ _ (by simp)

theorem settleMemory_apart (now : Instant) (f : Faulty MemoryLedger) (c : StoreCall) :
    (settleMemory now f c).1.inner.stats = f.inner.stats ∧ (settleMemory now f c).1.inner.clock = f.inner.clock := by
  unfold settleMemory settle
  cases Injection.strike c.kind f.injections with
  | mk struck left =>
    cases struck with
    | none =>
      obtain ⟨rows, -, pinned⟩ := f.inner.settle_apart now c
      exact ⟨rows, pinned⟩
    | some fault =>
      cases c with
      | commit work | rollback work =>
        obtain ⟨rows, -, pinned⟩ := f.inner.settle_apart now (.rollback work)
        exact ⟨rows, pinned⟩
      | _ => exact ⟨rfl, rfl⟩

theorem settleMemory_committed (now : Instant) (f : Faulty MemoryLedger) {work : Nat} {w : Work}
    (opened : f.holdings.works.get? work = some w) (done : (settleMemory now f (.commit work)).2 = .ok ()) :
    (settleMemory now f (.commit work)).1.holdings = f.holdings.committed work w (f.inner.clock.getD now) := by
  have here : f.inner.works.get? work = some w := opened
  unfold settleMemory settle at done ⊢
  cases strike : Injection.strike (StoreCall.commit work).kind f.injections with
  | mk struck left =>
    cases struck with
    | none =>
      simp only [MemoryLedger.settle, MemoryLedger.commit, here]
      rfl
    | some fault =>
      rw [strike] at done
      cases done

theorem arm_holdings (a : Arming) (f : Faulty MemoryLedger) : (arm a f).holdings = f.holdings := by
  cases a <;> rfl

end Faulty

end CampaignSettlement.Ledger
