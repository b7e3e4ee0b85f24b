import CampaignSettlement.Proofs.Ledger.Calls

/-!
A ledger in memory at which no failure is armed. A call fails there only when its transaction is not open.
-/
namespace CampaignSettlement.Ledger

open Calendar (Instant)

def StoreCall.work? : StoreCall → Option Nat
  | begin => none
  | known work _ | decrement work _ | append work _ | commit work | rollback work => some work

structure Mishaps.Calm (m : Mishaps) : Prop where
  begins : m.begins = .times 0
  appends : m.appends = .times 0
  accepting : m.rejectAppends = false

theorem Mishaps.Calm.begin_passes {m : Mishaps} (calm : m.Calm) : m.begins.strike = (false, m.begins) := by
  rw [calm.begins]
  rfl

theorem Mishaps.Calm.append_passes {m : Mishaps} (calm : m.Calm) : m.appends.strike = (false, m.appends) := by
  rw [calm.appends]
  rfl

namespace MemoryLedger

theorem settle_calm (now : Instant) {l : MemoryLedger} (calm : l.mishaps.Calm) (c : StoreCall) :
    (settle now l c).1.mishaps.Calm := by
  cases c with
  | known work campaign => exact calm
  | begin =>
    simp only [settle, begin, calm.begin_passes, Bool.false_eq_true, if_false]
    exact ⟨calm.begins, calm.appends, calm.accepting⟩
  | decrement work campaign =>
    simp only [settle, decrement]
    split
    · exact calm
    · exact calm
    · split <;> exact calm
  | append work e =>
    simp only [settle, append, calm.append_passes, calm.accepting, Bool.false_eq_true, if_false]
    split <;> exact ⟨calm.begins, calm.appends, rfl⟩
  | commit work =>
    simp only [settle, commit]
    split <;> exact calm
  | rollback work =>
    simp only [settle, rollback]
    split <;> exact calm

theorem settle_succeeds (now : Instant) {l : MemoryLedger} (calm : l.mishaps.Calm) {c : StoreCall}
    (opened : ∀ work, c.work? = some work → ∃ w, l.works.get? work = some w) :
    ∃ v, (settle now l c).2 = .ok v := by
  cases c with
  | known work campaign => exact ⟨_, rfl⟩
  | begin =>
    simp only [settle, begin, calm.begin_passes, Bool.false_eq_true, if_false]
    exact ⟨_, rfl⟩
  | decrement work campaign =>
    obtain ⟨w, opened⟩ := opened work rfl
    cases found : l.campaigns.get? campaign with
    | none =>
      simp only [settle, decrement, opened, found]
      exact ⟨_, rfl⟩
    | some c =>
      simp only [settle, decrement, opened, found]
      split <;> exact ⟨_, rfl⟩
  | append work e =>
    obtain ⟨w, opened⟩ := opened work rfl
    simp only [settle, append, calm.append_passes, calm.accepting, opened, Bool.false_eq_true, if_false]
    exact ⟨_, rfl⟩
  | commit work =>
    obtain ⟨w, opened⟩ := opened work rfl
    exact ⟨(), by simp only [settle, commit, opened]⟩
  | rollback work =>
    obtain ⟨w, opened⟩ := opened work rfl
    exact ⟨(), by simp only [settle, rollback, opened]⟩

end MemoryLedger

namespace Faulty

structure Calm (f : Faulty MemoryLedger) : Prop where
  uninjected : f.injections = []
  mishaps : f.inner.mishaps.Calm

theorem settleMemory_uninjected (now : Instant) {f : Faulty MemoryLedger} (uninjected : f.injections = [])
    (c : StoreCall) :
    settleMemory now f c = (⟨(MemoryLedger.settle now f.inner c).1, []⟩, (MemoryLedger.settle now f.inner c).2) := by
  simp only [settleMemory, settle, uninjected, Injection.strike]

theorem settleMemory_calm (now : Instant) {f : Faulty MemoryLedger} (calm : f.Calm) (c : StoreCall) :
    (settleMemory now f c).1.Calm := by
  rw [settleMemory_uninjected now calm.uninjected]
  exact ⟨rfl, MemoryLedger.settle_calm now calm.mishaps c⟩

theorem settleMemory_succeeds (now : Instant) {f : Faulty MemoryLedger} (calm : f.Calm) {c : StoreCall}
    (opened : ∀ work, c.work? = some work → ∃ w, f.holdings.works.get? work = some w) :
    ∃ v, (settleMemory now f c).2 = .ok v := by
  rw [settleMemory_uninjected now calm.uninjected]
  exact MemoryLedger.settle_succeeds now calm.mishaps opened

theorem opening_calm (launches : List Launch) : Calm ⟨MemoryLedger.opening launches, []⟩ := by
  refine ⟨rfl, ?_⟩
  unfold MemoryLedger.opening
  have fresh : ({} : MemoryLedger).mishaps.Calm := ⟨rfl, rfl, rfl⟩
  generalize ({} : MemoryLedger) = l at fresh
  induction launches generalizing l with
  | nil => exact fresh
  | cons x launches ih => exact ih (l.addCampaign x.id x.stock x.time) fresh

end Faulty

end CampaignSettlement.Ledger
