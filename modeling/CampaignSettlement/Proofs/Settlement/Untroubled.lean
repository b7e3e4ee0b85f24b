import CampaignSettlement.Proofs.Ledger.Calm
import CampaignSettlement.Proofs.Settlement.Accord
import CampaignSettlement.Proofs.Settlement.Failures

/-!
Batches over a ledger at which no failure is armed. A call that is due is made in an open transaction, so it
succeeds, and no attempt fails.
-/
namespace CampaignSettlement.Settlement

open Ledger (Faulty MemoryLedger StoreCall)

theorem allows_work {d : Desk} {c : StoreCall} (allowed : d.allows (.store c)) : c.work? = d.work? := by
  cases d with
  | settled front => exact absurd trivial allowed
  | idle tickets =>
    obtain rfl : c = .begin := by simpa using allowed trivial
    rfl
  | opened work front step back => cases allowed trivial <;> rfl

theorem calm_succeeds {s : Station (Faulty MemoryLedger)} (calm : s.store.Calm) {d : Desk} (held : d.HeldIn s.holdings)
    {c : StoreCall} (allowed : d.allows (.store c)) : ∃ v, (s.answer Faulty.settleMemory (.store c)).2 = .ok v := by
  refine Faulty.settleMemory_succeeds s.now calm ?_
  intro work member
  rw [allows_work allowed] at member
  obtain ⟨w, opened, -⟩ := held work member
  exact ⟨w, opened⟩

theorem calm_answer {s : Station (Faulty MemoryLedger)} (calm : s.store.Calm) (q : Ask) :
    (s.answer Faulty.settleMemory q).1.store.Calm := by
  cases q with
  | store c => exact Faulty.settleMemory_calm s.now calm c
  | _ => rwa [answer_store _ s (by simp)]

theorem calm_fine {s : Station (Faulty MemoryLedger)} (calm : s.store.Calm) {d : Desk} (held : d.HeldIn s.holdings)
    {q : Ask} (allowed : d.allows q) : failure? ⟨q, (s.answer Faulty.settleMemory q).2⟩ = none := by
  cases q with
  | store c =>
    obtain ⟨v, same⟩ := calm_succeeds calm held allowed
    rw [same]
    cases c <;> rfl
  | _ => rfl

theorem calm_failures {α : Type} {post : View → α → Prop} {p : Program α} {v : View}
    (h : p.Keeps Desk.watch post v) {s : Station (Faulty MemoryLedger)} (calm : s.store.Calm)
    (held : v.desk.HeldIn s.holdings) : failuresIn (p.transcript (Station.answer Faulty.settleMemory) s) = [] := by
  induction p generalizing v s with
  | done a => rfl
  | ask q next ih =>
    have allowed : v.desk.allows q := h.1.1
    have still_held := act_heldIn held (act_of_answered held allowed (answer_answered s q))
    have later := ih _ (h.2 _) (calm_answer calm q) still_held
    simp only [Program.transcript, failuresIn, List.filterMap_cons, calm_fine calm held allowed]
    exact later

end CampaignSettlement.Settlement
