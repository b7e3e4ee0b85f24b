import CampaignSettlement.Proofs.Settlement.Logging
import CampaignSettlement.Proofs.Settlement.Untroubled

/-!
Workers over a ledger at which no failure is armed. No transaction is rolled back, so no unit comes back to a stock,
and a campaign for which one participation was refused has none left from then on.
-/
namespace CampaignSettlement.Settlement

open Ledger (Campaign Decision Entry Faulty Holdings Launch Record Work)
open Wire (Message)

def StaysCalm : Shift := fun s s' => (s.store.Calm → s'.store.Calm) ∧ s'.holdings = s.holdings

namespace Desk

def Sound : Desk → Prop
  | .opened _ _ (.failing _) _ => False
  | _ => True

def Forward (d d' : Desk) : Prop := d.work? ≠ none → ∀ tickets, d' ≠ .idle tickets

def decisions (d : Desk) : List Decision := d.committed.map Entry.decision ++ d.decided

end Desk

theorem sound_after {d : Desk} (sound : d.Sound) {q : Ask} {r : q.Reply} (allowed : d.allows q)
    (fine : failure? ⟨q, r⟩ = none) : (d.after q r).Sound ∧ d.Forward (d.after q r) := by
  have goes := desk_goes allowed r
  generalize d.after q r = d' at goes ⊢
  cases goes with
  | quiet =>
    refine ⟨sound, ?_⟩
    rintro opened tickets rfl
    exact opened rfl
  | begun => exact ⟨trivial, by simp [Desk.Forward, Desk.work?]⟩
  | found | missed | took | drew | wrote | committed => exact ⟨trivial, fun _ tickets => Desk.noConfusion⟩
  | failed front due within f =>
    cases due with
    | rollback => exact absurd rfl within.2
    | _ => cases fine
  | unbegun | uncommitted => cases fine
  | returned => exact absurd sound id

def Smooth : Knowledge := Each (fun s => s.store.Calm) fun r => failuresIn r.asked = [] ∧ r.desk.Sound

theorem smooth_upkeep (b : Backoff) (Q : Int → Message → Prop) : Upkeep b Q StaysCalm Smooth := by
  refine Upkeep.each (fun calm pool signals => calm) (fun batch => ⟨rfl, trivial⟩) ?_
    fun calm stays => stays.1 calm
  intro s r q calm smooth held allowed
  have fine := calm_fine calm held allowed
  refine ⟨calm_answer calm q, ?_, ?_⟩
  · change failuresIn (r.asked ++ [_]) = []
    rw [failuresIn_append, smooth.1]
    simp [failuresIn, fine]
  · rw [round_desk_ask]
    exact (sound_after smooth.2 allowed fine).1

def Spent (k : Holdings) (x : Decision) : Prop := x.2 = .fail → ∀ c ∈ k.campaigns.get? x.1, c.currentStock ≤ 0

def Lowers (k k' : Holdings) : Prop :=
  ∀ id, ∀ c' ∈ k'.campaigns.get? id, ∃ c ∈ k.campaigns.get? id, c'.currentStock ≤ c.currentStock

theorem spent_lowers {k k' : Holdings} (lowers : Lowers k k') {x : Decision} (spent : Spent k x) : Spent k' x := by
  intro refused c' found'
  obtain ⟨c, found, less⟩ := lowers x.1 c' found'
  exact Int.le_trans less (spent refused c found)

theorem act_lowers {k k' : Holdings} {d d' : Desk} (act : Act k d k' d') (forward : d.Forward d') : Lowers k k' := by
  have same (id : Int) : ∀ c' ∈ k.campaigns.get? id, ∃ c ∈ k.campaigns.get? id, c'.currentStock ≤ c.currentStock :=
    fun c found => ⟨c, found, Int.le_refl _⟩
  cases act with
  | still | began | refused | wrote | committed => exact same
  | @took work w c front t back opened found stocked =>
    intro id c' found'
    simp only [Holdings.took, Ledger.Table.get?_put] at found'
    split at found'
    · next own =>
      obtain rfl := Option.some.inj found'
      exact ⟨c, own ▸ found, Int.sub_le_self _ (by decide)⟩
    · exact same id c' found'
  | returned front step back opened => exact absurd rfl (forward (by simp [Desk.work?]) _)

theorem act_decides {k k' : Holdings} {d d' : Desk} (act : Act k d k' d') :
    ∀ x ∈ d'.decisions, x ∈ d.decisions ∨ Spent k' x := by
  intro x member
  cases act with
  | still work pending written committed =>
    rw [Desk.decisions, Desk.decided, committed, written, pending] at member
    exact Or.inl member
  | began tickets => cases tickets <;> cases member
  | took front t back opened found stocked =>
    simp only [Desk.decisions, Desk.decided_writing, Desk.committed, List.map_nil, List.nil_append, List.mem_append,
      List.mem_singleton] at member ⊢
    rcases member with earlier | rfl
    · exact Or.inl earlier
    · exact Or.inr fun refused => by cases refused
  | refused work front t back none_left =>
    simp only [Desk.decisions, Desk.decided_writing, Desk.committed, List.map_nil, List.nil_append, List.mem_append,
      List.mem_singleton] at member ⊢
    rcases member with earlier | rfl
    · exact Or.inl earlier
    · exact Or.inr fun _ => none_left
  | wrote front r t n id back opened =>
    rw [Desk.decisions, Desk.decided_written] at member
    exact Or.inl member
  | committed front created opened =>
    refine Or.inl ?_
    simpa [Desk.decisions, Desk.decided, Desk.written, Desk.pending, Desk.committed] using member
  | returned => cases member

theorem act_owned {k k' : Holdings} {d d' : Desk} (act : Act k d k' d') {work : Nat} {w : Work}
    (opened : k'.works.get? work = some w) :
    d'.work? = some work ∨ d.work? ≠ some work ∧ ∃ v, k.works.get? work = some v := by
  have other {mine : Nat} {front : List Passed} {step : Step} {back : List Ticket} (apart : work ≠ mine) :
      (Desk.opened mine front step back).work? ≠ some work := by
    intro same
    exact apart (Option.some.inj same).symm
  cases act with
  | still same pending written committed =>
    rw [same]
    by_cases own : d.work? = some work
    · exact Or.inl own
    · exact Or.inr ⟨own, w, opened⟩
  | refused mine front t back none_left =>
    by_cases own : work = mine
    · exact Or.inl (own ▸ rfl)
    · exact Or.inr ⟨other own, w, opened⟩
  | began tickets =>
    rw [Holdings.begun, Ledger.Table.get?_put] at opened
    by_cases own : work = k.lastWork + 1
    · exact Or.inl (own ▸ rfl)
    · rw [if_neg own] at opened
      exact Or.inr ⟨by simp [Desk.work?], w, opened⟩
  | @took mine v c front t back at_desk found stocked =>
    rw [Holdings.took, Ledger.Table.get?_put] at opened
    by_cases own : work = mine
    · exact Or.inl (own ▸ rfl)
    · rw [if_neg own] at opened
      exact Or.inr ⟨other own, w, opened⟩
  | @wrote mine v front r t n id back at_desk =>
    rw [Holdings.wrote, Ledger.Table.get?_put] at opened
    by_cases own : work = mine
    · exact Or.inl (own ▸ rfl)
    · rw [if_neg own] at opened
      exact Or.inr ⟨other own, w, opened⟩
  | @committed mine v front created at_desk =>
    rw [Holdings.committed, Ledger.Table.get?_erase] at opened
    by_cases own : work = mine
    · rw [if_pos own] at opened
      cases opened
    · rw [if_neg own] at opened
      exact Or.inr ⟨other own, w, opened⟩
  | @returned mine v front step back at_desk =>
    rw [Holdings.returned, Ledger.Table.get?_erase] at opened
    by_cases own : work = mine
    · rw [if_pos own] at opened
      cases opened
    · rw [if_neg own] at opened
      exact Or.inr ⟨other own, w, opened⟩

/-- Where the units of the campaigns `launches` are, and who has the transactions that are open. -/
structure Trading (launches : List Launch) (past : Int → List Round) (now : Int → Round) (s : MemoryStation) :
    Prop where
  balanced : ∀ x ∈ launches, s.holdings.Balanced x.id x.stock
  owned : ∀ work w, s.holdings.works.get? work = some w → ∃ y, (now y).desk.work? = some work
  spent : ∀ y, ∀ r ∈ past y ++ [now y], ∀ x ∈ r.desk.decisions, Spent s.holdings x

variable {launches : List Launch} {past : Int → List Round} {now : Int → Round} {s : MemoryStation}

theorem Trading.begun (h : Trading launches past now s) {y : Int} (fresh : now y = .none) (batch : List Message) :
    Trading launches past (Function.update now y ⟨batch, []⟩) s := by
  refine ⟨h.balanced, ?_, ?_⟩
  · intro work w opened
    obtain ⟨z, own⟩ := h.owned work w opened
    have other : z ≠ y := by
      rintro rfl
      rw [fresh] at own
      cases own
    exact ⟨z, by rwa [Function.update_of_ne other]⟩
  · intro z r member x decided
    rcases List.mem_append.mp member with earlier | last
    · exact h.spent z r (List.mem_append_left _ earlier) x decided
    · obtain rfl := List.mem_singleton.mp last
      by_cases own : z = y
      · subst own
        rw [Function.update_self] at decided
        cases decided
      · rw [Function.update_of_ne own] at decided
        exact h.spent z _ (by simp) x decided

theorem Trading.asked (h : Trading launches past now s) (accord : Accord (fun z => (now z).desk) s.holdings) {y : Int}
    {q : Ask} (allowed : (now y).desk.allows q)
    (forward : (now y).desk.Forward ((now y).desk.after q (s.answer Faulty.settleMemory q).2)) :
    Trading launches past (Function.update now y ((now y).ask q (s.answer Faulty.settleMemory q).2))
      (s.answer Faulty.settleMemory q).1 := by
  have answered := answer_answered s q
  have act := accord.act (i := y) allowed answered
  have lowers := act_lowers act forward
  refine ⟨fun x member => accord.balanced (i := y) allowed answered (h.balanced x member), ?_, ?_⟩
  · intro work w opened
    rcases act_owned act opened with own | ⟨other, v, before⟩
    · refine ⟨y, ?_⟩
      rw [Function.update_self, round_desk_ask]
      exact own
    · obtain ⟨z, at_desk⟩ := h.owned work v before
      have elsewhere : z ≠ y := by
        rintro rfl
        exact other at_desk
      exact ⟨z, by rwa [Function.update_of_ne elsewhere]⟩
  · intro z r member x decided
    rcases List.mem_append.mp member with earlier | last
    · exact spent_lowers lowers (h.spent z r (List.mem_append_left _ earlier) x decided)
    · obtain rfl := List.mem_singleton.mp last
      by_cases own : z = y
      · subst own
        rw [Function.update_self, round_desk_ask] at decided
        rcases act_decides act x decided with before | spent
        · exact spent_lowers lowers (h.spent z _ (by simp) x before)
        · exact spent
      · rw [Function.update_of_ne own] at decided
        exact spent_lowers lowers (h.spent z _ (by simp) x decided)

theorem Trading.closed (h : Trading launches past now s) {y : Int} (idle : (now y).desk.work? = none) :
    Trading launches (Function.update past y (past y ++ [now y])) (Function.update now y .none) s := by
  refine ⟨h.balanced, ?_, ?_⟩
  · intro work w opened
    obtain ⟨z, own⟩ := h.owned work w opened
    have other : z ≠ y := by
      rintro rfl
      rw [idle] at own
      cases own
    exact ⟨z, by rwa [Function.update_of_ne other]⟩
  · intro z r member x decided
    by_cases own : z = y
    · subst own
      rw [Function.update_self, Function.update_self] at member
      rcases List.mem_append.mp member with earlier | last
      · exact h.spent z r earlier x decided
      · obtain rfl := List.mem_singleton.mp last
        cases decided
    · rw [Function.update_of_ne own, Function.update_of_ne own] at member
      exact h.spent z r member x decided

def SmoothTrading (launches : List Launch) : Knowledge := fun past now s =>
  Smooth past now s ∧ Trading launches past now s

theorem trading_upkeep (b : Backoff) (Q : Int → Message → Prop) (launches : List Launch) :
    Upkeep b Q StaysCalm (SmoothTrading launches) := by
  have smooth := smooth_upkeep b Q
  refine ⟨?_, ?_, ?_, ?_, ?_⟩
  · rintro past now s ⟨calm, trading⟩ pool signals
    exact ⟨smooth.queues calm pool signals, trading.balanced, trading.owned, trading.spent⟩
  · rintro past now s y batch ⟨calm, trading⟩ fresh expected
    exact ⟨smooth.begun calm fresh expected, trading.begun fresh batch⟩
  · rintro past now s y q next ⟨calm, trading⟩ accord expected course
    have allowed : (now y).desk.allows q := round_allows course rfl
    have fine := calm_fine calm.1 (accord.held y) allowed
    have forward := (sound_after (calm.2 y).1.2 allowed fine).2
    exact ⟨smooth.asked calm accord expected course, trading.asked accord allowed forward⟩
  · rintro past now s y goesOn ⟨calm, trading⟩ expected course
    exact ⟨smooth.closed calm expected course, trading.closed (round_closed course)⟩
  · rintro past now s s' ⟨calm, trading⟩ stays
    refine ⟨smooth.changed calm stays, ?_⟩
    obtain ⟨-, same⟩ := stays
    exact ⟨same ▸ trading.balanced, same ▸ trading.owned, same ▸ trading.spent⟩

theorem trading_start {launches : List Launch} (distinct : (launches.map Launch.id).Nodup)
    (stocked : ∀ x ∈ launches, 0 ≤ x.stock) (s : MemoryStation) :
    SmoothTrading launches (fun _ => []) (fun _ => .none) (s.opening launches []) := by
  obtain ⟨-, works, -⟩ := Ledger.MemoryLedger.opening_rows launches {}
  have closed : (s.opening launches []).holdings.works = [] := works
  refine ⟨⟨Faulty.opening_calm launches, fun y => ⟨⟨rfl, trivial⟩, List.forall_mem_nil _⟩⟩, ?_, ?_, ?_⟩
  · intro x member
    exact Ledger.MemoryLedger.opening_balanced distinct member (stocked x member)
  · intro work w opened
    rw [closed] at opened
    cases opened
  · intro y r member x decided
    obtain rfl := List.mem_singleton.mp member
    cases decided

end CampaignSettlement.Settlement
