import CampaignSettlement.Proofs.Settlement.Undoing

/-!
What a committed batch has done to the ledger and to the global sequence, as a function of both and of its
messages. A first attempt that meets no failure serves the messages one after another. An attempt that fails
is undone, but leaves sequences with the messages that it got to; these are the ones that the messages would
have been given anyway, so that the promise of what the batch will come to is the same before every attempt.
-/
namespace CampaignSettlement.Settlement

open Ledger (Campaign Entry Faulty Holdings MemoryLedger Record Result)
open Ledger.MemoryLedger (takeUnit)
open Wire (Message)

structure Shelf where
  campaigns : Int → Option Campaign
  last : Int

namespace Shelf

def serve (s : Shelf) (t : Ticket) : Shelf × Passed :=
  match s.campaigns t.event.campaign with
  | none => (s, ⟨t, none⟩)
  | some c =>
    let n := t.sequence.getD (s.last + 1)
    let last := if t.sequence.isSome then s.last else n
    let numbered := { t with sequence := some n }
    if c.currentStock ≤ 0 then (⟨s.campaigns, last⟩, ⟨numbered, some (t.entry .fail n)⟩)
    else
      (⟨Function.update s.campaigns t.event.campaign (some (takeUnit c)), last⟩,
        ⟨numbered, some (t.entry .success n)⟩)

def serveAll : Shelf → List Ticket → Shelf × List Passed
  | s, [] => (s, [])
  | s, t :: ts =>
    let (s, x) := s.serve t
    let (s, xs) := s.serveAll ts
    (s, x :: xs)

theorem serveAll_append (s : Shelf) (ts us : List Ticket) :
    s.serveAll (ts ++ us) =
      (((s.serveAll ts).1.serveAll us).1, (s.serveAll ts).2 ++ ((s.serveAll ts).1.serveAll us).2) := by
  induction ts generalizing s with
  | nil => rfl
  | cons t ts ih => simp only [List.cons_append, serveAll, ih]

theorem serve_unknown {s : Shelf} {t : Ticket} (unknown : s.campaigns t.event.campaign = none) :
    s.serve t = (s, ⟨t, none⟩) := by
  simp only [serve, unknown]

theorem numbered_self {t : Ticket} {n : Int} (numbered : t.sequence = some n) : { t with sequence := some n } = t := by
  rw [← numbered]

theorem serve_won {campaigns : Int → Option Campaign} {t : Ticket} {n : Int} {c : Campaign} (last : Int)
    (numbered : t.sequence = some n) (found : campaigns t.event.campaign = some c) (stocked : 0 < c.currentStock) :
    (Shelf.mk campaigns last).serve t =
      (⟨Function.update campaigns t.event.campaign (some (takeUnit c)), last⟩, ⟨t, some (t.entry .success n)⟩) := by
  have some_left : ¬ c.currentStock ≤ 0 := by omega
  simp only [serve, found, numbered, some_left, Option.getD_some, Option.isSome_some, if_true, if_false,
    numbered_self numbered]

theorem serve_lost {campaigns : Int → Option Campaign} {t : Ticket} {n : Int} {c : Campaign} (last : Int)
    (numbered : t.sequence = some n) (found : campaigns t.event.campaign = some c) (empty : c.currentStock ≤ 0) :
    (Shelf.mk campaigns last).serve t = (⟨campaigns, last⟩, ⟨t, some (t.entry .fail n)⟩) := by
  simp only [serve, found, numbered, empty, Option.getD_some, Option.isSome_some, if_true, numbered_self numbered]

theorem serve_drawn {campaigns : Int → Option Campaign} {t : Ticket} {last : Int} (undrawn : t.sequence = none)
    (known : campaigns t.event.campaign ≠ none) :
    (Shelf.mk campaigns (last + 1)).serve { t with sequence := some (last + 1) } =
      (Shelf.mk campaigns last).serve t := by
  cases found : campaigns t.event.campaign with
  | none => exact absurd found known
  | some c =>
    simp only [serve, found, undrawn, Option.getD_none, Option.getD_some, Option.isSome_some, Option.isSome_none,
      if_true, if_false, Bool.false_eq_true]
    rfl

end Shelf

/-- The campaigns `now` with the first message of `back` at the given step, when they were `before` its turn. -/
inductive Meets (before now : Int → Option Campaign) : Step → (back : List Ticket) → Prop
  | looking (back : List Ticket) (same : now = before) : Meets before now .looking back
  | taking {t : Ticket} (back : List Ticket) (known : before t.event.campaign ≠ none) (same : now = before) :
      Meets before now .taking (t :: back)
  | won {t : Ticket} {c : Campaign} (back : List Ticket) (found : before t.event.campaign = some c)
      (stocked : 0 < c.currentStock)
      (taken : now = Function.update before t.event.campaign (some (takeUnit c))) :
      Meets before now (.writing .success) (t :: back)
  | lost {t : Ticket} {c : Campaign} (back : List Ticket) (found : before t.event.campaign = some c)
      (empty : c.currentStock ≤ 0) (same : now = before) : Meets before now (.writing .fail) (t :: back)
  | failing (held : Option Result) (back : List Ticket) : Meets before now (.failing held) back

theorem meets_looking {before now : Int → Option Campaign} {back : List Ticket} (h : Meets before now .looking back) :
    before = now := by
  cases h with
  | looking back same => exact same.symm

theorem meets_known {before now : Int → Option Campaign} {r : Result} {t : Ticket} {back : List Ticket}
    (h : Meets before now (.writing r) (t :: back)) : before t.event.campaign ≠ none := by
  cases h with
  | won back found | lost back found => simp [found]

theorem meets_served {before now : Int → Option Campaign} {r : Result} {t : Ticket} {n : Int} {back : List Ticket}
    (h : Meets before now (.writing r) (t :: back)) (numbered : t.sequence = some n) (last : Int) :
    (Shelf.mk before last).serve t = (⟨now, last⟩, ⟨t, some (t.entry r n)⟩) := by
  cases h with
  | won back found stocked taken =>
    rw [taken]
    exact Shelf.serve_won last numbered found stocked
  | lost back found empty same =>
    rw [same]
    exact Shelf.serve_lost last numbered found empty

theorem meets_drawn {before now : Int → Option Campaign} {r : Result} {t : Ticket} {back : List Ticket} (n : Int)
    (h : Meets before now (.writing r) (t :: back)) :
    Meets before now (.writing r) ({ t with sequence := some n } :: back) := by
  cases h with
  | won back found stocked taken => exact .won (t := { t with sequence := some n }) back found stocked taken
  | lost back found empty same => exact .lost (t := { t with sequence := some n }) back found empty same

/-- The messages that were passed are served again as they were, from where the batch began. -/
def Desk.Replays (origin now : Int → Option Campaign) : Desk → Prop
  | .idle _ => now = origin
  | .opened _ front step back => ∃ before, Meets before now step back ∧
      ∀ last, (Shelf.mk origin last).serveAll (front.map Passed.ticket) = (⟨before, last⟩, front)
  | .settled front => ∀ last, (Shelf.mk origin last).serveAll (front.map Passed.ticket) = (⟨now, last⟩, front)

/-- From where the batch began, and with the sequences that it has drawn, its messages come to what was promised. -/
structure Promised (origin : Int → Option Campaign) (promise : Shelf × List Passed) (d : Desk)
    (now : Int → Option Campaign) (last : Int) : Prop where
  total : (Shelf.mk origin last).serveAll d.tickets = promise
  replays : d.Replays origin now

variable {origin now : Int → Option Campaign} {promise : Shelf × List Passed}

theorem promised_settled {front : List Passed} {last : Int} (h : Promised origin promise (.settled front) now last) :
    promise = (⟨now, last⟩, front) :=
  h.total.symm.trans (h.replays last)

theorem replays_snoc {front : List Passed} {before : Int → Option Campaign} {t : Ticket} {entry : Option Entry}
    (replays : ∀ last, (Shelf.mk origin last).serveAll (front.map Passed.ticket) = (⟨before, last⟩, front))
    (served : ∀ last, (Shelf.mk before last).serve t = (⟨now, last⟩, ⟨t, entry⟩)) (last : Int) :
    (Shelf.mk origin last).serveAll ((front ++ [Passed.mk t entry]).map Passed.ticket) =
      (⟨now, last⟩, front ++ [⟨t, entry⟩]) := by
  rw [List.map_append, Shelf.serveAll_append, replays]
  simp only [List.map_cons, List.map_nil, Shelf.serveAll, served]

theorem total_drawn {front : List Passed} {before : Int → Option Campaign} {t : Ticket} {back : List Ticket}
    {last : Int}
    (replays : ∀ last, (Shelf.mk origin last).serveAll (front.map Passed.ticket) = (⟨before, last⟩, front))
    (undrawn : t.sequence = none) (known : before t.event.campaign ≠ none) :
    (Shelf.mk origin (last + 1)).serveAll (front.map Passed.ticket ++ { t with sequence := some (last + 1) } :: back) =
      (Shelf.mk origin last).serveAll (front.map Passed.ticket ++ t :: back) := by
  rw [Shelf.serveAll_append, Shelf.serveAll_append, replays, replays]
  simp only [Shelf.serveAll, Shelf.serve_drawn undrawn known]

def campaignsIn (k : Holdings) (id : Int) : Option Campaign := k.campaigns.get? id

theorem promised_reopened {work : Nat} {front : List Passed} {step : Step} {back : List Ticket} {last : Int}
    (h : Promised origin promise (.opened work front step back) now last) :
    Promised origin promise (Desk.reopened front back) origin last :=
  ⟨h.total, rfl⟩

theorem promised_failing {work : Nat} {front : List Passed} {step : Step} {back : List Ticket} {last : Int}
    (h : Promised origin promise (.opened work front step back) now last) :
    Promised origin promise (.opened work front (.failing step.held) back) now last := by
  obtain ⟨before, -, replays⟩ := h.replays
  exact ⟨h.total, before, Meets.failing step.held back, replays⟩

theorem promised_snoc {work : Nat} {front : List Passed} {step : Step} {t : Ticket} {entry : Option Entry}
    {back : List Ticket} {before : Int → Option Campaign} {last : Int}
    (h : Promised origin promise (.opened work front step (t :: back)) now last)
    (replays : ∀ last, (Shelf.mk origin last).serveAll (front.map Passed.ticket) = (⟨before, last⟩, front))
    (served : ∀ last, (Shelf.mk before last).serve t = (⟨now, last⟩, ⟨t, entry⟩)) :
    Promised origin promise (.opened work (front ++ [⟨t, entry⟩]) .looking back) now last :=
  ⟨by simpa [Desk.tickets] using h.total, now, .looking back rfl, replays_snoc replays served⟩

theorem promised_known {work : Nat} {front : List Passed} {t : Ticket} {back : List Ticket} {last : Int}
    (h : Promised origin promise (.opened work front .looking (t :: back)) now last) :
    Promised origin promise ((Desk.opened work front .looking (t :: back)).after
      (.store (.known work t.event.campaign)) (.ok (now t.event.campaign).isSome)) now last := by
  obtain ⟨before, meets, replays⟩ := h.replays
  obtain rfl := meets_looking meets
  cases found : before t.event.campaign with
  | some c => exact ⟨h.total, before, .taking back (by simp [found]) rfl, replays⟩
  | none => exact promised_snoc h replays fun last => Shelf.serve_unknown found

theorem campaignsIn_took (k : Holdings) (work : Nat) (w : Ledger.Work) (id : Int) (c : Campaign) :
    campaignsIn (k.took work w id c) = Function.update (campaignsIn k) id (some (takeUnit c)) := by
  funext other
  by_cases own : other = id
  · subst own
    simp [campaignsIn, Holdings.took, Ledger.Table.get?_put]
  · simp [campaignsIn, Holdings.took, Ledger.Table.get?_put, own]

theorem promised_taken {k k' : Holdings} {work : Nat} {front : List Passed} {t : Ticket} {back : List Ticket}
    {r : (Ledger.StoreCall.decrement work t.event.campaign).Reply} {last : Int}
    (h : Promised origin promise (.opened work front .taking (t :: back)) (campaignsIn k) last)
    (effect : Holdings.Effect k (.decrement work t.event.campaign) r k') :
    Promised origin promise ((Desk.opened work front .taking (t :: back)).after
      (.store (.decrement work t.event.campaign)) r) (campaignsIn k') last := by
  obtain ⟨before, meets, replays⟩ := h.replays
  cases meets with
  | taking back known same =>
    subst same
    cases effect with
    | failed f absent => exact promised_failing h
    | refused _ none_left =>
      obtain ⟨c, found⟩ := Option.ne_none_iff_exists'.mp known
      exact ⟨h.total, campaignsIn k, .lost back found (none_left c found) rfl, replays⟩
    | took opened found stocked =>
      exact ⟨h.total, campaignsIn k, .won back found stocked (campaignsIn_took k work _ _ _), replays⟩

theorem promised_call {k₀ k k' : Holdings} {d : Desk} {c : Ledger.StoreCall} {r : c.Reply} {last : Int}
    (h : Promised (campaignsIn k₀) promise d (campaignsIn k) last) (held : d.HeldIn k) (undoes : d.Undoes k₀ k)
    (allowed : d.allows (.store c)) (effect : Holdings.Effect k c r k') :
    Promised (campaignsIn k₀) promise (d.after (.store c) r) (campaignsIn k') last := by
  cases d with
  | settled front => exact absurd trivial allowed
  | idle tickets =>
    obtain rfl : c = .begin := by simpa using allowed trivial
    cases effect with
    | failed f absent => exact h
    | begun =>
      have same : campaignsIn k.begun = campaignsIn k₀ := h.replays
      exact ⟨h.total, campaignsIn k₀, .looking tickets same, fun last => rfl⟩
  | opened work front step back =>
    obtain ⟨w, opened, -⟩ := held work rfl
    have here : k.works.get? work ≠ none := by rw [opened]; simp
    have undone : ∀ w, k.works.get? work = some w → campaignsIn (k.returned work w) = campaignsIn k₀ :=
      fun w opened => funext (undoes w opened).campaigns
    cases allowed trivial with
    | look t back =>
      cases effect with
      | failed f absent => exact promised_failing h
      | known => exact promised_known h
    | take t back => exact promised_taken h effect
    | write r back numbered =>
      cases effect with
      | failed f absent => exact promised_failing h
      | wrote id e opened =>
        obtain ⟨before, meets, replays⟩ := h.replays
        exact promised_snoc h replays (meets_served meets numbered)
    | commit =>
      cases effect with
      | failed f absent => exact absurd (absent work (Or.inl rfl)) here
      | committed created opened =>
        obtain ⟨before, meets, replays⟩ := h.replays
        obtain rfl := meets_looking meets
        exact ⟨by simpa [Desk.after, Desk.go, Desk.tickets] using h.total, replays⟩
      | undone f opened =>
        rw [undone _ opened]
        exact promised_reopened h
    | rollback held back =>
      cases effect with
      | failed f absent => exact absurd (absent work (Or.inr rfl)) here
      | returned r opened =>
        rw [undone _ opened]
        exact promised_reopened h

theorem promised_draw {d : Desk} {n last last' : Int} (h : Promised origin promise d now last)
    (allowed : d.allows .draw) (drawn : Drawn last .draw n last') :
    Promised origin promise (d.after .draw n) now last' := by
  obtain ⟨rfl, rfl⟩ := drawn
  obtain ⟨work, front, r, t, back, rfl, undrawn⟩ := draw_undrawn allowed
  obtain ⟨before, meets, replays⟩ := h.replays
  exact ⟨(total_drawn replays undrawn (meets_known meets)).trans h.total, before, meets_drawn _ meets, replays⟩

theorem promised_after {k₀ k k' : Holdings} {d : Desk} {q : Ask} {r : q.Reply} {last last' : Int}
    (h : Promised (campaignsIn k₀) promise d (campaignsIn k) last) (held : d.HeldIn k) (undoes : d.Undoes k₀ k)
    (allowed : d.allows q) (answered : Answered k q r k') (drawn : Drawn last q r last') :
    Promised (campaignsIn k₀) promise (d.after q r) (campaignsIn k') last' := by
  cases answered with
  | store effect =>
    have same : last' = last := drawn
    rw [same]
    exact promised_call h held undoes allowed effect
  | other other r =>
    cases q with
    | store c => exact absurd rfl (other c)
    | draw => exact promised_draw h allowed drawn
    | _ =>
      have same : last' = last := drawn
      rw [desk_after_quiet d (by exact id), same]
      exact h

theorem settled_after {d : Desk} {q : Ask} {r : q.Reply} {front : List Passed} (allowed : d.allows q)
    (settled : d.after q r = .settled front) :
    d = .settled front ∧ ¬ Desk.Counts q ∨
      ∃ work, d = .opened work front .looking [] ∧ (⟨q, r⟩ : Exchange) = ⟨.store (.commit work), .ok ()⟩ := by
  have goes := desk_goes allowed r
  rw [settled] at goes
  cases goes with
  | quiet d still r => exact Or.inl ⟨rfl, still⟩
  | committed work front => exact Or.inr ⟨work, rfl, rfl⟩

/-- What has come of a batch that runs alone from `s₀`, at its desk and in its surroundings. -/
structure Clearing (s₀ : Station (Faulty MemoryLedger)) (promise : Shelf × List Passed) (d : Desk)
    (s : Station (Faulty MemoryLedger)) : Prop where
  alone : Alone s₀ d s
  promised : Promised (campaignsIn s₀.holdings) promise d (campaignsIn s.holdings) s.sequence.last
  time : s.now = s₀.now ∧ s.store.inner.clock = s₀.store.inner.clock
  log : ∀ front, d = .settled front → ∃ rows : List (Int × Entry), rows.map Prod.snd = front.filterMap Passed.entry ∧
    s.holdings.records = s₀.holdings.records ++
      rows.map fun row => .ofEntry row.1 row.2 (s₀.store.inner.clock.getD s₀.now)

theorem answer_time (s : Station (Faulty MemoryLedger)) (q : Ask) :
    (s.answer Faulty.settleMemory q).1.now = s.now ∧
      (s.answer Faulty.settleMemory q).1.store.inner.clock = s.store.inner.clock := by
  refine ⟨answer_now _ s q, ?_⟩
  cases q with
  | store c => exact (Faulty.settleMemory_apart s.now s.store c).2
  | _ => rw [answer_store _ s (by simp)]

theorem answered_quiet {k k' : Holdings} {q : Ask} {r : q.Reply} (answered : Answered k q r k')
    (quiet : ¬ Desk.Counts q) : k' = k := by
  cases answered with
  | store effect => exact absurd trivial quiet
  | other => rfl

theorem clearing_answer {s₀ s : Station (Faulty MemoryLedger)} {promise : Shelf × List Passed} {d : Desk}
    (h : Clearing s₀ promise d s) {q : Ask} (allowed : d.allows q) :
    Clearing s₀ promise (d.after q (s.answer Faulty.settleMemory q).2) (s.answer Faulty.settleMemory q).1 := by
  have answered := answer_answered s q
  have time := answer_time s q
  refine ⟨alone_answer h.alone allowed, ?_, ⟨time.1.trans h.time.1, time.2.trans h.time.2⟩, ?_⟩
  · exact promised_after h.promised h.alone.held h.alone.undoes allowed answered (answer_drawn s q)
  · intro front settled
    rcases settled_after allowed settled with ⟨same, quiet⟩ | ⟨work, same, exchange⟩
    · rw [answered_quiet answered quiet]
      exact h.log front same
    · -- only here does the log grow, by what was written in the transaction
      obtain rfl := congrArg Sigma.fst exchange
      have done : (Faulty.settleMemory s.now s.store (.commit work)).2 = .ok () := eq_of_heq (Sigma.mk.inj exchange).2
      have held := h.alone.held
      have undoes := h.alone.undoes
      rw [same] at held undoes
      obtain ⟨w, opened, -, written⟩ := held work rfl
      have committed := Faulty.settleMemory_committed s.now s.store opened done
      rw [h.time.1, h.time.2] at committed
      refine ⟨w.written, written, ?_⟩
      change (Faulty.settleMemory s.now s.store (.commit work)).1.holdings.records = _
      rw [h.time.1, committed, ← (undoes w opened).records]
      rfl

theorem clearing_start (s : Station (Faulty MemoryLedger)) (tickets : List Ticket) :
    Clearing s ((Shelf.mk (campaignsIn s.holdings) s.sequence.last).serveAll tickets) (.idle tickets) s := by
  refine ⟨⟨?_, undoes_start _ _, rfl⟩, ⟨rfl, rfl⟩, ⟨rfl, rfl⟩, ?_⟩
  · intro work opened
    cases opened
  · intro front settled
    cases settled

end CampaignSettlement.Settlement
