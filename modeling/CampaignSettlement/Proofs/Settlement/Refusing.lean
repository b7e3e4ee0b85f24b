import CampaignSettlement.Proofs.Settlement.Chronicle
import CampaignSettlement.Proofs.Settlement.Committing

/-!
What a refusal rests on. A participation is refused when the stock is empty, though open transactions may have taken
units and may yet give them back. From a refusal on the stock holds what was given back since, less what was taken since:
the campaign is sold out at the end if the two are the same, and else a record says of it that it was, when it was not.
-/
namespace CampaignSettlement.Settlement

open Ledger (Arming CallKind Campaign Entry Fault Faulty Holdings Injection Launch MemoryLedger Record Result StoreCall
  Table Work)
open Ledger.Holdings (Effect)
open Wire (Message)

def taker? (campaign : Int) : Exchange → Option Nat
  | ⟨.store (.decrement work id), .ok true⟩ => if id = campaign then some work else none
  | _ => none

def givenUp? : Exchange → Option Nat
  | ⟨.store (.rollback work), _⟩ | ⟨.store (.commit work), .error _⟩ => some work
  | _ => none

def takenBy (work : Nat) (campaign : Int) (xs : Chronicle) : Nat := xs.countP fun x => taker? campaign x.2 == some work

def taken (campaign : Int) (xs : Chronicle) : Nat := xs.countP fun x => (taker? campaign x.2).isSome

/-- The units of a campaign that come back with an exchange, which were taken before. -/
def returns (campaign : Int) (before : Chronicle) (x : Exchange) : Nat :=
  ((givenUp? x).map (takenBy · campaign before)).getD 0

def givenBack (campaign : Int) (before : Chronicle) : Chronicle → Nat
  | [] => 0
  | x :: later => returns campaign before x.2 + givenBack campaign (before ++ [x]) later

theorem givenBack_snoc (campaign : Int) (before later : Chronicle) (x : Nat × Exchange) :
    givenBack campaign before (later ++ [x]) =
      givenBack campaign before later + returns campaign (before ++ later) x.2 := by
  induction later generalizing before with
  | nil => simp [givenBack]
  | cons y later ih =>
    rw [List.cons_append, givenBack, ih, givenBack, List.append_assoc, List.singleton_append]
    omega

theorem taker?_took {work mine : Nat} {campaign id : Int} :
    taker? campaign ⟨.store (.decrement mine id), .ok true⟩ = some work ↔ id = campaign ∧ mine = work := by
  unfold taker?
  dsimp only
  split <;> simp_all

theorem takenBy_snoc (work : Nat) (campaign : Int) (xs : Chronicle) (x : Nat × Exchange) :
    takenBy work campaign (xs ++ [x]) =
      takenBy work campaign xs + if taker? campaign x.2 = some work then 1 else 0 := by
  simp [takenBy, List.countP_append, List.countP_singleton]

theorem taken_snoc (campaign : Int) (xs : Chronicle) (x : Nat × Exchange) :
    taken campaign (xs ++ [x]) = taken campaign xs + if (taker? campaign x.2).isSome then 1 else 0 := by
  simp [taken, List.countP_append, List.countP_singleton]

/-- The transactions that are open have what the chronicle says they took. -/
structure Told (xs : Chronicle) (k : Holdings) : Prop where
  opened : ∀ work w, k.works.get? work = some w → ∀ campaign, w.taken.count campaign = takenBy work campaign xs
  unbegun : ∀ work, k.lastWork < work → ∀ campaign, takenBy work campaign xs = 0

variable {xs : Chronicle} {k k' : Holdings} {c : StoreCall} {r : c.Reply} {i : Nat}

theorem Told.untaking (told : Told xs k) {x : Nat × Exchange} (nothing : ∀ campaign, taker? campaign x.2 = none)
    (opened : ∀ work w', k'.works.get? work = some w' →
      (∃ w, k.works.get? work = some w ∧ w'.taken = w.taken) ∨ k.lastWork < work ∧ w'.taken = [])
    (later : k.lastWork ≤ k'.lastWork) : Told (xs ++ [x]) k' := by
  refine ⟨?_, ?_⟩
  · intro work w' at_work campaign
    rw [takenBy_snoc, nothing, if_neg (by simp), Nat.add_zero]
    rcases opened work w' at_work with ⟨w, before, same⟩ | ⟨fresh, same⟩
    · rw [same]
      exact told.opened work w before campaign
    · rw [same, told.unbegun work fresh campaign]
      rfl
  · intro work fresh campaign
    rw [takenBy_snoc, nothing, if_neg (by simp), Nat.add_zero]
    exact told.unbegun work (Nat.lt_of_le_of_lt later fresh) campaign

theorem told_effect (told : Told xs k) (orderly : k.Orderly) (effect : Effect k c r k') :
    Told (xs ++ [(i, ⟨.store c, r⟩)]) k' := by
  have same : ∀ work w', k.works.get? work = some w' →
      (∃ w, k.works.get? work = some w ∧ w'.taken = w.taken) ∨ k.lastWork < work ∧ w'.taken = [] :=
    fun work w' at_work => Or.inl ⟨w', at_work, rfl⟩
  have closed {mine : Nat} : ∀ work w', Table.get? work (k.works.filter (·.1 != mine)) = some w' →
      (∃ w, k.works.get? work = some w ∧ w'.taken = w.taken) ∨ k.lastWork < work ∧ w'.taken = [] := by
    intro work w' at_work
    rw [Table.get?_erase] at at_work
    split at at_work
    · cases at_work
    · exact same work w' at_work
  cases effect with
  | failed f absent => exact told.untaking (fun _ => by cases c <;> rfl) same (Nat.le_refl _)
  | known | refused => exact told.untaking (fun _ => rfl) same (Nat.le_refl _)
  | begun =>
    refine told.untaking (fun _ => rfl) ?_ (Nat.le_succ _)
    intro work w' at_work
    rw [Holdings.begun, Table.get?_put] at at_work
    split at at_work
    case isTrue own =>
      obtain rfl := Option.some.inj at_work
      exact Or.inr ⟨own ▸ Nat.lt_succ_self _, rfl⟩
    case isFalse => exact same work w' at_work
  | @took mine w id campaign at_mine found stocked =>
    refine ⟨?_, ?_⟩
    · intro work w' at_work campaign
      rw [Holdings.took, Table.get?_put] at at_work
      rw [takenBy_snoc]
      split at at_work
      case isTrue own =>
        obtain rfl := Option.some.inj at_work
        rw [own, List.count_append, told.opened mine w at_mine]
        by_cases here : id = campaign
        · rw [if_pos (taker?_took.mpr ⟨here, rfl⟩), here, List.count_singleton_self]
        · rw [if_neg fun takes => here (taker?_took.mp takes).1]
          simp [here]
      case isFalse other =>
        rw [if_neg fun takes => other (taker?_took.mp takes).2.symm]
        exact told.opened work w' at_work campaign
    · intro work fresh campaign
      have other : mine ≠ work := by
        rintro rfl
        exact absurd (orderly.begun _ (Table.mem_of_get? at_mine)) (Nat.not_le.mpr fresh)
      rw [takenBy_snoc, if_neg fun own => other (taker?_took.mp own).2]
      exact told.unbegun work fresh campaign
  | @wrote mine w id e at_mine =>
    refine told.untaking (fun _ => rfl) ?_ (Nat.le_refl _)
    intro work w' at_work
    rw [Holdings.wrote, Table.get?_put] at at_work
    split at at_work
    case isTrue own =>
      obtain rfl := Option.some.inj at_work
      exact Or.inl ⟨w, own ▸ at_mine, rfl⟩
    case isFalse => exact same work w' at_work
  | committed | undone | returned => exact told.untaking (fun _ => rfl) closed (Nat.le_refl _)

theorem closing_opened {d : Desk} (held : d.HeldIn k) (allowed : d.allows (.store c)) {work : Nat}
    (closing : c = .commit work ∨ c = .rollback work) : k.works.get? work ≠ none := by
  cases d with
  | settled front => exact absurd trivial allowed
  | idle tickets =>
    obtain rfl : c = .begin := by simpa using allowed trivial
    rcases closing with same | same <;> cases same
  | opened mine front step back =>
    obtain ⟨w, opened, -⟩ := held mine rfl
    cases allowed trivial with
    | commit =>
      obtain rfl : mine = work := by simpa using closing
      simp [opened]
    | rollback =>
      obtain rfl : mine = work := by simpa using closing
      simp [opened]
    | look | take | write => rcases closing with same | same <;> cases same

theorem stock_effect (told : Told xs k) (effect : Effect k c r k')
    (opened : ∀ work, c = .commit work ∨ c = .rollback work → k.works.get? work ≠ none) {campaign : Int} {a : Campaign}
    (found : k.campaigns.get? campaign = some a) :
    ∃ a', k'.campaigns.get? campaign = some a' ∧
      a'.currentStock + (if (taker? campaign ⟨.store c, r⟩).isSome then 1 else 0) =
        a.currentStock + returns campaign xs ⟨.store c, r⟩ := by
  cases effect with
  | failed f absent =>
    refine ⟨a, found, ?_⟩
    cases c with
    | commit work => exact absurd (absent work (Or.inl rfl)) (opened work (Or.inl rfl))
    | rollback work => exact absurd (absent work (Or.inr rfl)) (opened work (Or.inr rfl))
    | _ => rfl
  | begun | known | refused | wrote | committed => exact ⟨a, found, rfl⟩
  | @took work w id b at_work at_id stocked =>
    rw [Holdings.took, Table.get?_put]
    by_cases own : campaign = id
    · subst own
      obtain rfl := Option.some.inj (at_id.symm.trans found)
      refine ⟨MemoryLedger.takeUnit b, if_pos rfl, ?_⟩
      simp [taker?, returns, givenUp?, MemoryLedger.takeUnit]
    · refine ⟨a, (if_neg own).trans found, ?_⟩
      simp [taker?, returns, givenUp?, Ne.symm own]
  | @undone work w f at_work =>
    refine ⟨_, by rw [Holdings.returned, Holdings.get?_returned, found, Option.map_some], ?_⟩
    simp [taker?, returns, givenUp?, told.opened work w at_work]
  | @returned work w r at_work =>
    refine ⟨_, by rw [Holdings.returned, Holdings.get?_returned, found, Option.map_some], ?_⟩
    simp [taker?, returns, givenUp?, told.opened work w at_work]

theorem told_answered (told : Told xs k) (orderly : k.Orderly) {q : Ask} {r : q.Reply} (answered : Answered k q r k') :
    Told (xs ++ [(i, ⟨q, r⟩)]) k' := by
  cases answered with
  | store effect => exact told_effect told orderly effect
  | other other r =>
    refine told.untaking ?_ (fun work w at_work => Or.inl ⟨w, at_work, rfl⟩) (Nat.le_refl _)
    intro campaign
    cases q with
    | store c => exact absurd rfl (other c)
    | _ => rfl

theorem stock_answered (told : Told xs k) {d : Desk} (held : d.HeldIn k) {q : Ask} {r : q.Reply} (allowed : d.allows q)
    (answered : Answered k q r k') {campaign : Int} {a : Campaign} (found : k.campaigns.get? campaign = some a) :
    ∃ a', k'.campaigns.get? campaign = some a' ∧
      a'.currentStock + (if (taker? campaign ⟨q, r⟩).isSome then 1 else 0) =
        a.currentStock + returns campaign xs ⟨q, r⟩ := by
  cases answered with
  | store effect => exact stock_effect told effect (fun _ closing => closing_opened held allowed closing) found
  | other other r =>
    refine ⟨a, found, ?_⟩
    cases q with
    | store c => exact absurd rfl (other c)
    | _ => rfl

def refusal (work : Nat) (campaign : Int) : Exchange := ⟨.store (.decrement work campaign), .ok false⟩

theorem refused_empty {q : Ask} {r : q.Reply} (answered : Answered k q r k') {work : Nat} {campaign : Int}
    (refused : (⟨q, r⟩ : Exchange) = refusal work campaign) : ∀ a ∈ k'.campaigns.get? campaign, a.currentStock ≤ 0 := by
  cases refused
  cases answered with
  | other other => exact absurd rfl (other _)
  | store effect =>
    cases effect with
    | refused _ none_left => exact none_left

/-- What the stock of a campaign holds since a refusal. -/
def Since (xs : Chronicle) (k : Holdings) (campaign : Int) : Prop :=
  ∀ before i work later, xs = before ++ (i, refusal work campaign) :: later →
    ∃ a, k.campaigns.get? campaign = some a ∧
      a.currentStock + taken campaign later = givenBack campaign (before ++ [(i, refusal work campaign)]) later

theorem since_snoc {campaign stock : Int} {x : Nat × Exchange} (since : Since xs k campaign)
    (balanced : k'.Balanced campaign stock)
    (refused : ∀ work, x.2 = refusal work campaign → ∀ a ∈ k'.campaigns.get? campaign, a.currentStock ≤ 0)
    (moves : ∀ a, k.campaigns.get? campaign = some a → ∃ a', k'.campaigns.get? campaign = some a' ∧
      a'.currentStock + (if (taker? campaign x.2).isSome then 1 else 0) = a.currentStock + returns campaign xs x.2) :
    Since (xs ++ [x]) k' campaign := by
  intro before i work later split
  rcases snoc_split split with ⟨rfl, rfl, rfl⟩ | ⟨early, rfl, rfl⟩
  · obtain ⟨a, found, stocked, -⟩ := balanced
    have empty := refused work rfl a found
    refine ⟨a, found, ?_⟩
    simp only [taken, List.countP_nil, givenBack]
    omega
  · obtain ⟨a, found, held⟩ := since before i work early rfl
    obtain ⟨a', found', moved⟩ := moves a found
    refine ⟨a', found', ?_⟩
    rw [taken_snoc, givenBack_snoc, List.append_assoc, List.singleton_append]
    split_ifs at moved ⊢ <;> omega

theorem goes_decides {d d' : Desk} {q : Ask} {r : q.Reply} (goes : d.Goes q r d') : ∀ x ∈ d'.decisions,
    x ∈ d.decisions ∨
      ∃ work, (⟨q, r⟩ : Exchange) = ⟨.store (.decrement work x.1), .ok (x.2 == Result.success)⟩ := by
  intro x member
  cases goes with
  | quiet | unbegun | found | drew => exact Or.inl member
  | begun tickets => cases tickets <;> cases member
  | @failed work front step back c due within f =>
    refine Or.inl ?_
    have same : (Desk.opened work front (.failing step.held) back).pending =
        (Desk.opened work front step back).pending := by
      cases back <;> rfl
    rw [Desk.decisions, Desk.decided, same] at member
    exact member
  | missed work front t back =>
    refine Or.inl ?_
    have idle : (Desk.opened work (front ++ [⟨t, none⟩]) .looking back).pending = [] := by cases back <;> rfl
    rw [Desk.decisions, Desk.decided, idle, Desk.written_snoc] at member
    simpa [Desk.decisions, Desk.decided, Desk.written, Desk.pending, Desk.committed, Step.held] using member
  | took work front t back taken =>
    rw [Desk.decisions, Desk.decided_writing, ← List.append_assoc] at member
    rcases List.mem_append.mp member with earlier | last
    · exact Or.inl earlier
    · obtain rfl := List.mem_singleton.mp last
      exact Or.inr ⟨work, by cases taken <;> rfl⟩
  | wrote work front r back numbered id =>
    rw [Desk.decisions, Desk.decided_written] at member
    exact Or.inl member
  | committed work front =>
    refine Or.inl ?_
    simpa [Desk.decisions, Desk.decided, Desk.written, Desk.pending, Desk.committed] using member
  | uncommitted | returned => cases member

variable {launches : List Launch} {calls : Calls}

/-- What the chronicle `xs` says of the batches and the ledger that it led to. -/
structure Backed (launches : List Launch) (calls : Calls) (t : MemoryTurns) (xs : Chronicle) : Prop where
  committing : Committing launches calls t
  told : Told xs t.state.holdings
  since : ∀ x ∈ launches, Since xs t.state.holdings x.id
  decided : ∀ i, ∀ x ∈ (desks calls t i).decisions,
    ∃ work, (i, ⟨.store (.decrement work x.1), .ok (x.2 == Result.success)⟩) ∈ xs

theorem backed_start (distinct : (launches.map Launch.id).Nodup) (stocked : ∀ x ∈ launches, 0 ≤ x.stock)
    (calls : Calls) (s : Station (Faulty MemoryLedger)) (injections : List (Injection CallKind Fault)) :
    Backed launches calls
      (.start (s.opening launches injections) (calls.map fun call => processBatch call.1 call.2)) [] := by
  obtain ⟨-, works, -⟩ := MemoryLedger.opening_rows launches {}
  have closed : (s.opening launches injections).holdings.works = [] := works
  refine ⟨committing_start distinct stocked calls s injections, ⟨?_, fun _ _ _ => rfl⟩, ?_, ?_⟩
  · intro work w opened
    rw [show (Turns.start (s.opening launches injections) _).state.holdings.works = [] from closed] at opened
    cases opened
  · intro x member before i work later split
    cases before <;> cases split
  · intro i x member
    obtain ⟨tickets, same⟩ := desks_start calls (s.opening launches injections) i
    rw [same] at member
    cases member

theorem backed_beat {t : MemoryTurns} {xs : Chronicle} (h : Backed launches calls t xs)
    (move : Beat (Station.Change Arming)) :
    Backed launches calls (t.beat (Station.answer Faulty.settleMemory) (Station.change Faulty.arm) move)
      (xs ++ t.asks (Station.answer Faulty.settleMemory) move) := by
  have committing := committing_beat h.committing move
  have goes := Turns.beat_goes (Station.answer Faulty.settleMemory) (Station.change Faulty.arm) t move
  generalize t.beat (Station.answer Faulty.settleMemory) (Station.change Faulty.arm) move = t' at committing goes ⊢
  generalize t.asks (Station.answer Faulty.settleMemory) move = ys at goes ⊢
  cases goes with
  | idle =>
    rw [List.append_nil]
    exact h
  | changed e =>
    rw [List.append_nil]
    have same := change_holdings t.state e
    exact ⟨committing, same ▸ h.told, same ▸ h.since, h.decided⟩
  | @asked i c q next at_course due =>
    obtain ⟨call, at_call, -, desk, allowed⟩ := selling_due h.committing.selling at_course due
    have answered := answer_answered t.state q
    have accord := h.committing.selling.accord
    have balanced := committing.selling.balanced
    have goes := desk_goes allowed (t.state.answer Faulty.settleMemory q).2
    refine ⟨committing, ?_, ?_, ?_⟩
    · exact told_answered h.told accord.orderly answered
    · intro x member
      exact since_snoc (h.since x member) (balanced x member) (fun _ refused => refused_empty answered refused)
        fun _ found => stock_answered h.told (accord.held i) allowed answered found
    · intro j x member
      rw [desks_set at_call at_course, deskAfter_snoc, ← desk] at member
      by_cases own : j = i
      · subst own
        rw [Function.update_self] at member
        rcases goes_decides goes x member with before | ⟨work, same⟩
        · obtain ⟨work, asked⟩ := h.decided j x before
          exact ⟨work, List.mem_append_left _ asked⟩
        · exact ⟨work, List.mem_append_right _ (by rw [← same]; exact List.mem_singleton_self _)⟩
      · rw [Function.update_of_ne own] at member
        obtain ⟨work, asked⟩ := h.decided j x member
        exact ⟨work, List.mem_append_left _ asked⟩

/-- All units of a campaign have gone to participations of the log. -/
structure SoldOut (l : MemoryLedger) (x : Launch) : Prop where
  stock : ∃ c, l.campaign? x.id = some c ∧ c.currentStock = 0
  sold : (l.holdings.sold x.id : Int) = x.stock

/-- How a campaign stands since a refusal that parts the chronicle in two. -/
structure StandsSince (l : MemoryLedger) (x : Launch) (before later : Chronicle) : Prop where
  stock : ∃ c, l.campaign? x.id = some c ∧ c.currentStock + taken x.id later = givenBack x.id before later
  sold_out : l.works = [] → (SoldOut l x ↔ givenBack x.id before later = taken x.id later)
  unreturned : l.works = [] → givenBack x.id before later = 0 → SoldOut l x

theorem stands_since {t : MemoryTurns} {xs : Chronicle} (h : Backed launches calls t xs) {x : Launch}
    (member : x ∈ launches) {before : Chronicle} {i work : Nat} {later : Chronicle}
    (split : xs = before ++ (i, refusal work x.id) :: later) :
    StandsSince t.state.store.inner x (before ++ [(i, refusal work x.id)]) later := by
  obtain ⟨c, found, held⟩ := h.since x member before i work later split
  obtain ⟨c', conserved⟩ := balanced_conserved (h.committing.selling.balanced x member)
  obtain rfl : c' = c := Option.some.inj (conserved.found.symm.trans found)
  have nonneg := conserved.nonneg
  have sold_out : t.state.store.inner.works = [] → (SoldOut t.state.store.inner x ↔
      givenBack x.id (before ++ [(i, refusal work x.id)]) later = taken x.id later) := by
    intro closed
    obtain ⟨sold, -⟩ := conserved.settled closed
    constructor
    · intro out
      obtain ⟨b, found', empty⟩ := out.stock
      obtain rfl : c' = b := Option.some.inj (conserved.found.symm.trans found')
      omega
    · intro same
      exact ⟨⟨c', conserved.found, by omega⟩, by omega⟩
  refine ⟨⟨c', found, held⟩, sold_out, ?_⟩
  intro closed none_back
  refine (sold_out closed).mpr ?_
  omega

theorem committing_refused {t : MemoryTurns} {xs : Chronicle} (h : Backed launches calls t xs) {r : Record}
    (member : r ∈ t.state.store.inner.records) (fail : r.status = "FAIL") :
    ∃ i work, (i, refusal work r.campaign) ∈ xs := by
  obtain ⟨es, perm, log⟩ := h.committing.log
  obtain ⟨e, written, kept⟩ := recorded_entry log member
  obtain ⟨⟨call, c⟩, paired, of_desk⟩ := List.mem_flatMap.mp (perm.subset written)
  obtain ⟨i, at_both⟩ := List.getElem?_of_mem paired
  obtain ⟨at_call, at_course⟩ := List.getElem?_zip_eq_some.mp at_both
  have desk : desks calls t i = deskAfter call.2 c.asked := by simp only [desks, at_call, at_course]
  have decided : e.decision ∈ (desks calls t i).decisions := by
    rw [desk]
    exact List.mem_append_left _ (List.mem_map_of_mem of_desk)
  obtain ⟨work, asked⟩ := h.decided i e.decision decided
  rw [kept] at fail
  have failed : e.result = .fail := by
    cases result : e.result with
    | fail => rfl
    | success =>
      rw [Record.ofEntry, result] at fail
      change Result.success.name = "FAIL" at fail
      exact absurd fail (by decide)
  rw [Entry.decision, failed] at asked
  rw [kept]
  exact ⟨i, work, asked⟩

/-- Whatever the schedule, the failures and the batches are. -/
theorem fail_records_rest_on_refusals {launches : List Launch} (distinct : (launches.map Launch.id).Nodup)
    (stocked : ∀ x ∈ launches, 0 ≤ x.stock) (calls : Calls) (s : Station (Faulty MemoryLedger))
    (injections : List (Injection CallKind Fault)) (schedule : List (Beat (Station.Change Arming))) :
    let start := Turns.start (s.opening launches injections) (calls.map fun call => processBatch call.1 call.2)
    let ledger := (start.run (Station.answer Faulty.settleMemory) (Station.change Faulty.arm) schedule).state.store.inner
    let asked := start.chronicle (Station.answer Faulty.settleMemory) (Station.change Faulty.arm) schedule
    ∀ x ∈ launches,
      (∀ r ∈ ledger.records, r.campaign = x.id → r.status = "FAIL" → ∃ i work, (i, refusal work x.id) ∈ asked) ∧
      ∀ before i work later, asked = before ++ (i, refusal work x.id) :: later →
        StandsSince ledger x (before ++ [(i, refusal work x.id)]) later := by
  intro start ledger asked x member
  have backed := Turns.run_preserves (P := Backed launches calls) (fun _ _ move h => backed_beat h move)
    (backed_start distinct stocked calls s injections) schedule
  rw [List.nil_append] at backed
  refine ⟨?_, fun before i work later split => stands_since backed member split⟩
  intro r logged own fail
  rw [← own]
  exact committing_refused backed logged fail

def oneAfterOther : List (Beat (Station.Change Arming)) := List.replicate 10 (.turn 0) ++ List.replicate 10 (.turn 1)

theorem fail_records_rest_on_refusals_sold :
    let start := Turns.start (stand.opening [⟨1, 1, epoch⟩] [])
      ([(twice, [taking 0 0]), (twice, [taking 1 0])].map fun call => processBatch call.1 call.2)
    let ledger :=
      (start.run (Station.answer Faulty.settleMemory) (Station.change Faulty.arm) oneAfterOther).state.store.inner
    let asked := start.chronicle (Station.answer Faulty.settleMemory) (Station.change Faulty.arm) oneAfterOther
    ([⟨1, 1, epoch⟩].map Launch.id).Nodup ∧ (∀ x ∈ [(⟨1, 1, epoch⟩ : Launch)], 0 ≤ x.stock) ∧
      ledger.works = [] ∧ ledger.records.map Record.status = ["SUCCESS", "FAIL"] ∧
      (∀ r ∈ ledger.records, r.campaign = 1 → r.status = "FAIL" → ∃ i work, (i, refusal work 1) ∈ asked) ∧
      ∀ before i work later, asked = before ++ (i, refusal work 1) :: later →
        StandsSince ledger ⟨1, 1, epoch⟩ (before ++ [(i, refusal work 1)]) later := by
  refine ⟨by decide, by decide, by decide +kernel, by decide +kernel, ?_⟩
  exact fail_records_rest_on_refusals (by decide) (by decide) [(twice, [taking 0 0]), (twice, [taking 1 0])] stand []
    oneAfterOther ⟨1, 1, epoch⟩ (by simp)

/-- The second batch is refused while the first has the unit, which comes back when its append is rejected. -/
def refusedMeanwhile : List (Beat (Station.Change Arming)) :=
  List.replicate 3 (.turn 0) ++ List.replicate 10 (.turn 1) ++
    .change (.store (.mishaps { rejectAppends := true })) :: List.replicate 12 (.turn 0)

theorem refused_though_unsold :
    let start := Turns.start (stand.opening [⟨1, 1, epoch⟩] [])
      ([(twice, [taking 0 0]), (twice, [taking 1 0])].map fun call => processBatch call.1 call.2)
    let stop := start.run (Station.answer Faulty.settleMemory) (Station.change Faulty.arm) refusedMeanwhile
    let ledger := stop.state.store.inner
    ledger.works = [] ∧ ledger.records.map Record.status = ["FAIL"] ∧
      (ledger.campaign? 1).map Campaign.currentStock = some 1 ∧ ledger.holdings.sold 1 = 0 ∧
      stop.courses.map Course.result? = [some ⟨[.deadLettered .storeRejected], 1⟩, some ⟨[.settled .fail 1], 1⟩] := by
  decide +kernel

end CampaignSettlement.Settlement
