import CampaignSettlement.Proofs.Ledger.Statements

/-!
A ledger in memory and one of tables that have been through the same. Between two transactions they have the same
stock of each campaign, the same log and the same totals, and the tables pass the checks of their schema; one call of
a transaction answers the same on both sides.
-/
namespace CampaignSettlement.Ledger

open Calendar (Instant)
open MemoryLedger (campaignsIn countIn putRow)

structure Campaign.Valid (c : Campaign) : Prop where
  total : 1 ≤ c.totalStock
  nonneg : 0 ≤ c.currentStock
  within : c.currentStock ≤ c.totalStock
  status : c.status?.isSome

/-- The checks, the primary keys and the foreign keys of the three tables. -/
structure Tables.Valid (t : Tables) : Prop where
  campaigns : ∀ id c, t.campaigns.get? id = some c → c.id = id ∧ c.Valid
  records : ∀ r ∈ t.records, (t.campaigns.get? r.campaign).isSome ∧ r.result?.isSome
  ids : t.records.Pairwise (·.id < ·.id)
  stats : ∀ k row, t.stats.get? k = some row → k = ⟨row.campaign, row.date⟩ ∧ (t.campaigns.get? row.campaign).isSome

structure Twins (l : MemoryLedger) (m : SqlLedger) : Prop where
  calm : l.mishaps = {}
  up : m.link = .up
  uninjected : m.injections = []
  lastRecord : m.lastRecord = l.lastRecord
  lastWork : m.lastWork = l.lastWork
  stock : ∀ id, (m.tables.campaigns.get? id).map Campaign.currentStock =
    (l.campaigns.get? id).map Campaign.currentStock
  stats : m.tables.stats = l.stats
  ascending : l.stats.Ascending
  valid : m.tables.Valid
  early : ∀ r ∈ m.tables.records, r.id ≤ m.lastRecord

def MemoryLedger.holding (cs : List Campaign) : MemoryLedger := { campaigns := cs.foldl (fun t c => t.put c.id c) [] }

def SqlLedger.holding (cs : List Campaign) : SqlLedger := ({} : SqlLedger).insert cs [] []

theorem mem_putAll {cs : List Campaign} {t : Table Int Campaign} {id : Int} {c : Campaign}
    (found : (cs.foldl (fun t c => t.put c.id c) t).get? id = some c) : c ∈ cs ∧ c.id = id ∨ t.get? id = some c := by
  induction cs generalizing t with
  | nil => exact Or.inr found
  | cons d cs ih =>
    rcases ih found with ⟨member, own⟩ | earlier
    · exact Or.inl ⟨List.mem_cons_of_mem _ member, own⟩
    · rw [Table.get?_put] at earlier
      split at earlier
      · next same =>
        obtain rfl := Option.some.inj earlier
        exact Or.inl ⟨List.mem_cons_self, same.symm⟩
      · exact Or.inr earlier

theorem twins_start {cs : List Campaign} (valid : ∀ c ∈ cs, c.Valid) :
    Twins (MemoryLedger.holding cs) (SqlLedger.holding cs) := by
  have own : ∀ id c, (SqlLedger.holding cs).tables.campaigns.get? id = some c → c.id = id ∧ c.Valid := by
    intro id c found
    rcases mem_putAll found with ⟨member, own⟩ | none
    · exact ⟨own, valid c member⟩
    · cases none
  have empty : (SqlLedger.holding cs).tables.records = [] := rfl
  have unwritten : (SqlLedger.holding cs).tables.stats = [] := rfl
  refine ⟨rfl, rfl, rfl, rfl, rfl, fun _ => rfl, rfl, .nil, ⟨own, ?_, ?_, ?_⟩, ?_⟩
  · rw [empty]
    exact List.forall_mem_nil _
  · rw [empty]
    exact .nil
  · intro k row at_key
    rw [unwritten, Table.get?] at at_key
    cases at_key
  · rw [empty]
    exact List.forall_mem_nil _

variable {l : MemoryLedger} {m : SqlLedger}

/-- What can be seen of the two ledgers is the same. -/
structure Concur (l : MemoryLedger) (m : SqlLedger) : Prop where
  stock : ∀ id, (m.tables.fetchCampaign id).map Campaign.currentStock = (l.campaign? id).map Campaign.currentStock
  records : m.tables.records = l.records
  in_order : l.records.Pairwise (·.id < ·.id)
  own : ∀ id, m.tables.recordsOf id = l.recordsOf id
  stats : m.tables.stats = l.stats
  valid : m.tables.Valid

theorem twins_concur (h : Twins l m) (records : m.tables.records = l.records) : Concur l m := by
  have in_order : l.records.Pairwise (·.id < ·.id) := records ▸ h.valid.ids
  refine ⟨h.stock, records, in_order, ?_, h.stats, h.valid⟩
  intro id
  rw [Tables.recordsOf, records]
  refine List.mergeSort_of_pairwise (List.Pairwise.imp ?_ (in_order.filter _))
  exact fun less => decide_eq_true (Int.le_of_lt less)

theorem Twins.known (h : Twins l m) (id : Int) :
    (m.tables.campaigns.get? id).isSome = (l.campaigns.get? id).isSome := by
  have same := congrArg Option.isSome (h.stock id)
  rwa [Option.isSome_map, Option.isSome_map] at same

/-- The transaction `work` is open on both sides. -/
structure Holding (created : Instant) (work : Nat) (l : MemoryLedger) (m : SqlLedger) : Prop where
  twins : Twins l m
  opened : (m.works.get? work).isSome
  records : ∃ w, l.works.get? work = some w ∧
    m.tables.records = l.records ++ w.written.map fun row => .ofEntry row.1 row.2 created

variable {created : Instant} {work : Nat}

theorem settle_up (h : Twins l m) (created : Instant) (c : StoreCall) : m.settle created c = m.answer created c := by
  obtain ⟨tables, lastRecord, works, lastWork, link, injections⟩ := m
  obtain rfl : link = .up := h.up
  obtain rfl : injections = [] := h.uninjected
  rfl

theorem twins_begin (h : Twins l m) (records : m.tables.records = l.records) (created : Instant) :
    l.begin.2 = .ok (l.lastWork + 1) ∧ (m.answer created .begin).2 = .ok (l.lastWork + 1) ∧
      Holding created (l.lastWork + 1) l.begin.1 (m.answer created .begin).1 := by
  have quiet : l.begin =
      ({ l with begins := l.begins + 1, lastWork := l.lastWork + 1, works := l.works.put (l.lastWork + 1) ⟨[], []⟩ },
        .ok (l.lastWork + 1)) := by
    simp only [MemoryLedger.begin, h.calm, Countdown.strike, Bool.false_eq_true, if_false]
  have begun : m.answer created .begin =
      ({ m with lastWork := l.lastWork + 1, works := m.works.put (l.lastWork + 1) m.tables },
        .ok (l.lastWork + 1)) := by
    rw [← h.lastWork]
    rfl
  rw [quiet, begun]
  refine ⟨rfl, rfl, ⟨h.calm, h.up, h.uninjected, h.lastRecord, rfl, h.stock, h.stats, h.ascending, h.valid, h.early⟩,
    ?_, ⟨[], []⟩, Table.get?_put_self .., ?_⟩
  · rw [Table.get?_put_self]
    rfl
  · exact records.trans (List.append_nil _).symm

theorem valid_takeUnit {t : Tables} (valid : t.Valid) (created : Instant) {campaign : Int} {c : Campaign}
    (found : t.campaigns.get? campaign = some c) (stocked : 0 < c.currentStock) :
    Tables.Valid { t with campaigns := t.campaigns.update campaign (SqlLedger.takeUnit created) } := by
  have known (id : Int) : ((t.campaigns.update campaign (SqlLedger.takeUnit created)).get? id).isSome =
      (t.campaigns.get? id).isSome := by
    rw [Table.get?_update]
    split
    · rw [Option.isSome_map]
    · rfl
  refine ⟨?_, fun r member => by rw [known]; exact valid.records r member, valid.ids,
    fun k row at_key => by rw [known]; exact valid.stats k row at_key⟩
  intro id c' at_id
  rw [Table.get?_update] at at_id
  split at at_id
  · next same =>
    subst same
    rw [found] at at_id
    obtain rfl := Option.some.inj at_id
    obtain ⟨own, total, nonneg, within, status⟩ := valid.campaigns id c found
    refine ⟨own, total, ?_, ?_, status⟩ <;> simp only [SqlLedger.takeUnit] <;> omega
  · exact valid.campaigns id c' at_id

theorem holding_decrement (h : Holding created work l m) (campaign : Int) :
    (m.answer created (.decrement work campaign)).2 = (l.decrement work campaign).2 ∧
      (∃ taken, (l.decrement work campaign).2 = .ok taken) ∧
      Holding created work (l.decrement work campaign).1 (m.answer created (.decrement work campaign)).1 := by
  obtain ⟨twins, opened, w, at_work, records⟩ := h
  have stock := twins.stock campaign
  cases found : l.campaigns.get? campaign with
  | none =>
    have missing : m.tables.campaigns.get? campaign = none := by simpa [found] using stock
    simp only [MemoryLedger.decrement, SqlLedger.answer, at_work, found, missing]
    exact ⟨trivial, ⟨false, rfl⟩, twins, opened, w, at_work, records⟩
  | some c =>
    obtain ⟨c', found', same⟩ : ∃ c', m.tables.campaigns.get? campaign = some c' ∧
        c'.currentStock = c.currentStock := by
      simpa [found] using stock
    simp only [MemoryLedger.decrement, SqlLedger.answer, at_work, found, found', same]
    by_cases stocked : 0 < c.currentStock
    · simp only [stocked, if_true, show ¬ c.currentStock ≤ 0 by omega, if_false]
      refine ⟨trivial, ⟨true, rfl⟩, ⟨twins.calm, twins.up, twins.uninjected, twins.lastRecord, twins.lastWork, ?_,
        twins.stats, twins.ascending, valid_takeUnit twins.valid created found' (same ▸ stocked), twins.early⟩, opened,
        _, Table.get?_put_self .., records⟩
      intro id
      simp only [Table.get?_update, Table.get?_put]
      split
      · next own =>
        subst own
        simp [found', SqlLedger.takeUnit, MemoryLedger.takeUnit, same]
      · exact twins.stock id
    · simp only [stocked, if_false, show c.currentStock ≤ 0 by omega, if_true]
      exact ⟨trivial, ⟨false, rfl⟩, twins, opened, w, at_work, records⟩

theorem decrement_known (l : MemoryLedger) (work : Nat) (campaign id : Int) :
    ((l.decrement work campaign).1.campaigns.get? id).isSome = (l.campaigns.get? id).isSome := by
  cases opened : l.works.get? work with
  | none => simp only [MemoryLedger.decrement, opened]
  | some w =>
    cases found : l.campaigns.get? campaign with
    | none => simp only [MemoryLedger.decrement, opened, found]
    | some c =>
      simp only [MemoryLedger.decrement, opened, found]
      split
      · rfl
      · rw [Table.get?_put]
        split
        · next same => rw [same, found, Option.isSome_some, Option.isSome_some]
        · rfl

theorem holding_append (h : Holding created work l m) (whole : created.toMicros = created) {e : Entry}
    (known : (l.campaigns.get? e.campaign).isSome) :
    (m.answer created (.append work e)).2 = (l.append work e).2 ∧ (∃ id, (l.append work e).2 = .ok id) ∧
      Holding created work (l.append work e).1 (m.answer created (.append work e)).1 := by
  obtain ⟨twins, opened, w, at_work, records⟩ := h
  have quiet : l.append work e =
      ({ l with
          lastRecord := l.lastRecord + 1
          works := l.works.put work { w with written := w.written ++ [(l.lastRecord + 1, e)] } },
        .ok (l.lastRecord + 1)) := by
    simp only [MemoryLedger.append, twins.calm, Countdown.strike, Bool.false_eq_true, if_false, at_work]
  have inserted : m.answer created (.append work e) =
      ({ m with
          lastRecord := l.lastRecord + 1
          tables := { m.tables with records := m.tables.records ++ [.ofEntry (l.lastRecord + 1) e created] } },
        .ok (l.lastRecord + 1)) := by
    have there : (m.tables.campaigns.get? e.campaign).isSome = true := (twins.known _).trans known
    simp only [SqlLedger.answer, there, if_true, whole, twins.lastRecord]
  rw [quiet, inserted]
  have fresh : ∀ r ∈ m.tables.records, r.id < l.lastRecord + 1 := by
    intro r member
    have := twins.early r member
    have := twins.lastRecord
    omega
  refine ⟨rfl, ⟨_, rfl⟩, ⟨twins.calm, twins.up, twins.uninjected, rfl, twins.lastWork, twins.stock, twins.stats,
    twins.ascending, ⟨twins.valid.campaigns, ?_, ?_, twins.valid.stats⟩, ?_⟩, opened, _, Table.get?_put_self .., ?_⟩
  · intro r member
    rcases List.mem_append.mp member with earlier | last
    · exact twins.valid.records r earlier
    · obtain rfl := List.mem_singleton.mp last
      refine ⟨(twins.known _).trans known, ?_⟩
      rw [Record.result?, Record.ofEntry, Result.ofName?_name]
      rfl
  · refine List.pairwise_append.mpr ⟨twins.valid.ids, List.pairwise_singleton _ _, ?_⟩
    intro r member r' last
    obtain rfl := List.mem_singleton.mp last
    exact fresh r member
  · intro r member
    rcases List.mem_append.mp member with earlier | last
    · exact Int.le_of_lt (fresh r earlier)
    · obtain rfl := List.mem_singleton.mp last
      exact Int.le_refl _
  · simp only [records, List.map_append, List.append_assoc, List.map_cons, List.map_nil]

theorem holding_commit (h : Holding created work l m) (pinned : l.clock = some created) (now : Instant) :
    (m.answer created (.commit work)).2 = (l.commit now work).2 ∧ (l.commit now work).2 = .ok () ∧
      Twins (l.commit now work).1 (m.answer created (.commit work)).1 ∧
      (m.answer created (.commit work)).1.tables.records = (l.commit now work).1.records := by
  obtain ⟨twins, opened, w, at_work, records⟩ := h
  have done : l.commit now work =
      ({ l with
          works := l.works.filter (·.1 != work)
          records := l.records ++ w.written.map fun row => .ofEntry row.1 row.2 created }, .ok ()) := by
    simp only [MemoryLedger.commit, MemoryLedger.close, at_work, pinned, Option.getD_some]
  have closed : m.answer created (.commit work) = ({ m with works := m.works.filter (·.1 != work) }, .ok ()) := by
    simp only [SqlLedger.answer, opened, if_true]
  rw [done, closed]
  exact ⟨rfl, rfl, ⟨twins.calm, twins.up, twins.uninjected, twins.lastRecord, twins.lastWork, twins.stock, twins.stats,
    twins.ascending, twins.valid, twins.early⟩, records⟩

inductive TotalsCall
  | campaigns (w : Window)
  | write (w : Window) (only : Option Int)

inductive TotalsReply
  | campaigns (r : Except Fault (List Int))
  | rows (r : Except Fault Nat)
deriving DecidableEq

namespace Totals

variable {σ : Type}

def call (t : Totals σ) (s : σ) : TotalsCall → σ × TotalsReply
  | .campaigns w => ((t.campaigns s w).1, .campaigns (t.campaigns s w).2)
  | .write w only => ((t.write s w only).1, .rows (t.write s w only).2)

def callAll (t : Totals σ) : σ → List TotalsCall → σ × List TotalsReply
  | s, [] => (s, [])
  | s, c :: cs => ((callAll t (t.call s c).1 cs).1, (t.call s c).2 :: (callAll t (t.call s c).1 cs).2)

end Totals

theorem totals_pass (h : Twins l m) (s : Statement) : m.pass s = (m, .ok ()) := by
  obtain ⟨tables, lastRecord, works, lastWork, link, injections⟩ := m
  obtain rfl : link = .up := h.up
  obtain rfl : injections = [] := h.uninjected
  rfl

theorem totalsFault_calm (calm : l.mishaps = {}) (only : Option Int) : l.totalsFault only = none := by
  unfold MemoryLedger.totalsFault
  rw [calm]
  cases only <;> rfl

theorem valid_upsert {t : Tables} (valid : t.Valid) (w : Window) (only : Option Int) :
    (t.upsert (t.totalsIn w only)).Valid := by
  refine ⟨valid.campaigns, valid.records, valid.ids, ?_⟩
  rintro ⟨campaign, d⟩ row at_key
  change ((t.totalsIn w only).foldl Tables.putStat t.stats).get? _ = _ at at_key
  rw [Tables.totalsIn_rows, Tables.get?_putStats] at at_key
  split at at_key
  · next written =>
    obtain ⟨member, rfl⟩ := written
    obtain rfl := Option.some.inj at_key
    refine ⟨rfl, ?_⟩
    obtain ⟨-, met⟩ := Tables.mem_met.mp member
    obtain ⟨r, in_window⟩ := List.exists_mem_of_ne_nil _ met
    obtain ⟨at_log, -, own⟩ : r ∈ t.records ∧ w.holds r.createdAt ∧ r.campaign = campaign := by
      simpa [MemoryLedger.recordsIn] using in_window
    exact own ▸ (valid.records r at_log).1
  · exact valid.stats _ row at_key

theorem twins_call (h : Twins l m) (records : m.tables.records = l.records) (c : TotalsCall) :
    (SqlLedger.totals.call m c).2 = (MemoryLedger.totals.call l c).2 ∧
      Twins (MemoryLedger.totals.call l c).1 (SqlLedger.totals.call m c).1 ∧
      (SqlLedger.totals.call m c).1.tables.records = (MemoryLedger.totals.call l c).1.records := by
  cases c with
  | campaigns w =>
    have found : SqlLedger.totals.campaigns m w = (m, .ok (m.tables.campaignsIn w)) := by
      simp only [SqlLedger.totals, SqlLedger.query, totals_pass h, Except.map]
    have counted : MemoryLedger.totals.campaigns l w = (l, .ok (campaignsIn w l.records)) := by
      simp only [MemoryLedger.totals, h.calm, Bool.false_eq_true, if_false]
    simp only [Totals.call, found, counted, Tables.campaignsIn_counts, records]
    exact ⟨trivial, h, trivial⟩
  | write w only =>
    have upserted : SqlLedger.totals.write m w only =
        ({ m with tables := m.tables.upsert (m.tables.totalsIn w only) }, .ok (m.tables.totalsIn w only).length) := by
      simp only [SqlLedger.totals, totals_pass h]
    have counted : MemoryLedger.totals.write l w only =
        ({ l with stats := (countIn w only l.records).foldl (putRow w) l.stats },
          .ok (countIn w only l.records).length) :=
      MemoryLedger.writeTotals_passes (totalsFault_calm h.calm only)
    have ascending : m.tables.stats.Ascending := h.stats ▸ h.ascending
    simp only [Totals.call, upserted, counted]
    refine ⟨by rw [Tables.length_totalsIn, records], ⟨h.calm, h.up, h.uninjected, h.lastRecord, h.lastWork, h.stock, ?_,
      MemoryLedger.ascending_putRows h.ascending _, valid_upsert h.valid w only, h.early⟩, records⟩
    change (m.tables.upsert (m.tables.totalsIn w only)).stats = _
    rw [Tables.upsert_counts ascending, records, h.stats]

theorem twins_callAll (h : Twins l m) (records : m.tables.records = l.records) (cs : List TotalsCall) :
    (SqlLedger.totals.callAll m cs).2 = (MemoryLedger.totals.callAll l cs).2 ∧
      Twins (MemoryLedger.totals.callAll l cs).1 (SqlLedger.totals.callAll m cs).1 ∧
      (SqlLedger.totals.callAll m cs).1.tables.records = (MemoryLedger.totals.callAll l cs).1.records := by
  induction cs generalizing l m with
  | nil => exact ⟨rfl, h, records⟩
  | cons c cs ih =>
    obtain ⟨reply, twins, records⟩ := twins_call h records c
    obtain ⟨replies, ended⟩ := ih twins records
    exact ⟨congrArg₂ _ reply replies, ended⟩

end CampaignSettlement.Ledger
