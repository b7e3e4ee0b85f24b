import CampaignSettlement.Proofs.Settlement.Filing

/-!
Where a list of messages is cut into batches makes no difference. With no failure armed and the time of records
pinned, one worker comes to the same outcomes, stock, log and sequence whether it settles the messages in batches of
any size or one by one; the dead letters are the same, but may be posted in another order.
-/
namespace CampaignSettlement.Settlement

open Calendar (Instant)
open Ledger (Campaign Faulty Holdings MemoryLedger Record Settler)
open Wire (Envelope Message)

structure Notice where
  key : String
  letter : Envelope
  taken : Bool
deriving DecidableEq, Repr

def undated (e : Envelope) : Envelope := { e with sealedAt := .least }

def notice? : Exchange → Option Notice
  | ⟨.publish key e, taken⟩ => some ⟨key, undated e, taken⟩
  | _ => none

def noticesIn (xs : List Exchange) : List Notice := xs.filterMap notice?

theorem noticesIn_append (xs ys : List Exchange) : noticesIn (xs ++ ys) = noticesIn xs ++ noticesIn ys :=
  List.filterMap_append

theorem noticesIn_unsent {xs : List Exchange} (unsent : lettersIn xs = []) : noticesIn xs = [] := by
  refine List.filterMap_eq_nil_iff.mpr ?_
  rintro ⟨q, r⟩ member
  have none := List.filterMap_eq_nil_iff.mp unsent ⟨q, r⟩ member
  cases q with
  | publish key e => cases none
  | _ => rfl

def noticeOf (taken : Bool) (m : Message) (reason : Reason) (detail : String) : Notice :=
  ⟨m.routingKey, .single m.text reason.name reason.persistence detail .least, taken⟩

def refusalOf (taken : Bool) (m : Message) : Option Notice :=
  match m.decode with
  | .ok _ => none
  | .error detail => some (noticeOf taken m .undecodable detail)

def Item.notice? (taken : Bool) : Item → Option Notice
  | .unknown t =>
    some (noticeOf taken t.message .unknownCampaign ("campaign " ++ toString t.event.campaign ++ " not found"))
  | _ => none

section Letters

variable {σ α : Type} (settler : Instant → Settler σ)

theorem failing_run (p : Program α) (s : Station σ) :
    (p.run (Station.answer settler) s).1.sink.failing = s.sink.failing := by
  induction p generalizing s with
  | done a => rfl
  | ask q next ih =>
    refine (ih _ _).trans ?_
    cases q with
    | publish key e =>
      simp only [Station.answer, Wire.Sink.send]
      split <;> rfl
    | ack partition offset =>
      simp only [Station.answer, Station.ack]
      split <;> rfl
    | _ => rfl

theorem publishSingle_asks (m : Message) (reason : Reason) (detail : String) (s : Station σ) :
    let e := Envelope.single m.text reason.name reason.persistence detail s.now
    (publishSingle m reason detail).transcript (Station.answer settler) s =
      ⟨.now, s.now⟩ :: ⟨.measure (.letters reason e.count), ()⟩ :: ⟨.publish m.routingKey e, !s.sink.failing⟩ ::
        if s.sink.failing then [⟨.measure .publishFailure, ()⟩] else [] := by
  cases failing : s.sink.failing <;>
    simp [publishSingle, publish, Program.query, Program.transcript, Station.answer, Wire.Sink.send, failing,
      Except.toBool]

theorem publishSingle_notices (m : Message) (reason : Reason) (detail : String) (s : Station σ) :
    noticesIn ((publishSingle m reason detail).transcript (Station.answer settler) s) =
      [noticeOf (!s.sink.failing) m reason detail] := by
  rw [publishSingle_asks]
  cases s.sink.failing <;> rfl

theorem screen_notices (ms : List Message) (s : Station σ) :
    noticesIn ((screen ms).transcript (Station.answer settler) s) = ms.filterMap (refusalOf (!s.sink.failing)) := by
  induction ms generalizing s with
  | nil => rfl
  | cons m ms ih =>
    unfold screen
    cases decoded : m.decode with
    | ok e =>
      simp only [Program.bind_eq, Program.pure_eq, decoded, Program.bind_done, Program.transcript_bind,
        Program.transcript, List.append_nil, ih, List.filterMap_cons, refusalOf]
    | error detail =>
      simp only [Program.bind_eq, Program.pure_eq, decoded, Program.bind_done, Program.transcript_bind,
        Program.transcript, List.append_nil, noticesIn_append, ih, List.filterMap_cons,
        refusalOf, publishSingle_notices, failing_run]
      rfl

theorem conclude_notices (items : List Item) (s : Station σ) :
    noticesIn ((conclude items).transcript (Station.answer settler) s) = items.filterMap (Item.notice? (!s.sink.failing)) := by
  induction items generalizing s with
  | nil => rfl
  | cons item items ih =>
    unfold conclude
    cases item with
    | refused reason | settled r n =>
      simp only [Program.bind_eq, Program.pure_eq, Program.transcript_bind, Program.transcript, List.append_nil, ih,
        List.filterMap_cons, Item.notice?]
    | unknown t =>
      simp only [Program.bind_eq, Program.pure_eq, Program.transcript_bind, Program.transcript, List.append_nil,
        noticesIn_append, ih, List.filterMap_cons, Item.notice?, publishSingle_notices, failing_run]
      rfl

theorem closing_notices (os : List Outcome) (s : Station σ) :
    noticesIn ((closing os).transcript (Station.answer settler) s) = [] := by
  have course := (closing os).leads_transcript (Station.answer settler) s
  have tracked := Program.keeps_leads (closing_trouble os {}) course
  rw [Trouble.track] at tracked
  exact noticesIn_unsent (Trouble.mk.inj tracked).2

end Letters

/-- What settlement works on, apart from what open transactions hold. -/
structure Books where
  shelf : Shelf
  records : List Record
  lastRecord : Int

def Station.books (s : MemoryStation) : Books :=
  ⟨⟨campaignsIn s.holdings, s.sequence.last⟩, s.store.inner.records, s.store.inner.lastRecord⟩

/-- From the books `k` the messages `ms` come to the items, to what was passed, to the books `k'` and to the dead
letters `notices`, in some order. -/
structure Comes (created : Instant) (taken : Bool) (k : Books) (ms : List Message) (items : List Item)
    (front : List Passed) (k' : Books) (notices : List Notice) : Prop where
  settles : Settles ms items front
  served : k.shelf.serveAll (ms.filterMap ticketOf) = (k'.shelf, front)
  records : k'.records = k.records ++ filed created k.lastRecord (front.filterMap Passed.entry)
  lastRecord : k'.lastRecord = k.lastRecord + (front.filterMap Passed.entry).length
  notices : notices.Perm (ms.filterMap (refusalOf taken) ++ items.filterMap (Item.notice? taken))

variable {created : Instant} {taken : Bool} {k k₁ k₂ : Books} {ms : List Message} {items : List Item}
  {front : List Passed} {notices : List Notice}

theorem settles_append {more : List Message} {items' : List Item} {front' : List Passed} (first : Settles ms items front)
    (second : Settles more items' front') : Settles (ms ++ more) (items ++ items') (front ++ front') := by
  induction first with
  | nil => exact second
  | refused h rest ih => exact .refused h ih
  | written r readable own numbered rest ih => exact .written r readable own numbered ih
  | unknown readable own rest ih => exact .unknown readable own ih

theorem comes_nil (created : Instant) (taken : Bool) (k : Books) : Comes created taken k [] [] [] k [] :=
  ⟨.nil, rfl, (List.append_nil _).symm, (Int.add_zero _).symm, .nil⟩

theorem comes_append {more : List Message} {items' : List Item} {front' : List Passed} {notices' : List Notice}
    (first : Comes created taken k ms items front k₁ notices)
    (second : Comes created taken k₁ more items' front' k₂ notices') :
    Comes created taken k (ms ++ more) (items ++ items') (front ++ front') k₂ (notices ++ notices') := by
  constructor
  · exact settles_append first.settles second.settles
  · rw [List.filterMap_append, Shelf.serveAll_append, first.served, second.served]
  · rw [second.records, first.records, first.lastRecord, List.filterMap_append, filed_append, List.append_assoc]
  · rw [second.lastRecord, first.lastRecord, List.filterMap_append, List.length_append, Int.natCast_add, Int.add_assoc]
  · -- a batch posts all its refusals before the letters to unknown campaigns, one after the other they alternate
    refine (first.notices.append second.notices).trans ?_
    rw [List.filterMap_append, List.filterMap_append, List.append_assoc, List.append_assoc]
    refine List.Perm.append_left _ ?_
    rw [← List.append_assoc, ← List.append_assoc]
    exact List.perm_append_comm.append_right _

theorem comes_unique {items' : List Item} {front' : List Passed} {notices' : List Notice}
    (one : Comes created taken k ms items front k₁ notices) (other : Comes created taken k ms items' front' k₂ notices') :
    items = items' ∧ k₁ = k₂ ∧ notices.Perm notices' := by
  obtain ⟨shelves, rfl⟩ := Prod.mk.inj (one.served.symm.trans other.served)
  obtain rfl := settles_unique one.settles other.settles
  refine ⟨rfl, ?_, one.notices.trans other.notices.symm⟩
  have records := one.records.trans other.records.symm
  have last := one.lastRecord.trans other.lastRecord.symm
  cases k₁
  cases k₂
  cases shelves
  cases records
  cases last
  rfl

/-- No failure is armed, the time of records is pinned, and the sink takes all letters or none. -/
structure Ready (created : Instant) (taken : Bool) (s : MemoryStation) : Prop where
  calm : s.store.Calm
  pinned : s.store.inner.clock = some created
  taken : (!s.sink.failing) = taken

theorem ready_run {α : Type} (p : Program α) {s : MemoryStation} (ready : Ready created taken s) :
    Ready created taken (p.run (Station.answer Faulty.settleMemory) s).1 := by
  refine ⟨?_, ?_, by rw [failing_run]; exact ready.taken⟩
  · obtain ⟨calm, -, -⟩ := ready
    induction p generalizing s with
    | done a => exact calm
    | ask q next ih => exact ih _ (calm_answer calm q)
  · obtain ⟨-, pinned, -⟩ := ready
    induction p generalizing s with
    | done a => exact pinned
    | ask q next ih => exact ih _ ((answer_time s q).2.trans pinned)

theorem aside_books {α : Type} {post : Trouble → α → Prop} {p : Program α} {v : Trouble}
    (h : p.Keeps (Trouble.watch Aside) post v) (s : MemoryStation) :
    (p.run (Station.answer Faulty.settleMemory) s).1.books = s.books := by
  obtain ⟨store, sequence, -⟩ := aside_still Faulty.settleMemory h s
  simp only [Station.books, Station.holdings, store, sequence]

theorem unread_all (none_readable : readable ms = []) : ∀ m ∈ ms, ∃ detail, m.decode = .error detail := by
  intro m member
  have unread := List.filter_eq_nil_iff.mp none_readable m member
  cases decoded : m.decode with
  | ok e => simp [decoded, Except.toOption] at unread
  | error detail => exact ⟨detail, rfl⟩

theorem settles_unread (unread : ∀ m ∈ ms, ∃ detail, m.decode = .error detail) :
    Settles ms (ms.map fun _ => .refused .undecodable) [] := by
  induction ms with
  | nil => exact .nil
  | cons m ms ih =>
    obtain ⟨detail, decoded⟩ := unread m List.mem_cons_self
    exact .refused decoded (ih fun m member => unread m (List.mem_cons_of_mem _ member))

theorem batch_unread {σ : Type} (settler : Instant → Settler σ) (b : Backoff)
    (unread : ∀ m ∈ ms, ∃ detail, m.decode = .error detail) (s : Station σ) :
    let answer := Station.answer settler
    let os : List Outcome := ms.map fun _ => .deadLettered .undecodable
    ((processBatch b ms).run answer s).2 = ⟨os, 0⟩ ∧
      (processBatch b ms).transcript answer s =
        (screen ms).transcript answer s ++ (closing os).transcript answer ((screen ms).run answer s).1 := by
  intro answer os
  have places : ms.map placeOf = ms.map fun _ => .refused .undecodable := by
    refine List.map_congr_left ?_
    intro m member
    obtain ⟨detail, decoded⟩ := unread m member
    simp only [placeOf, decoded]
  have none : (ms.map placeOf).filterMap Slot.ticket? = [] := by
    rw [places, List.filterMap_map]
    exact List.filterMap_eq_nil_iff.mpr fun _ _ => rfl
  have given : (ms.map placeOf).map (Slot.givenUp .storeRejected) = os := by
    rw [places, List.map_map]
    rfl
  simp only [processBatch_eq, Program.run_bind, Program.transcript_bind, answer, screened, none, given, List.isEmpty_nil,
    if_true, Program.run, Program.transcript, List.append_nil, List.nil_append, and_self]

def BatchComes (created : Instant) (taken : Bool) (b : Backoff) (ms : List Message) (s : MemoryStation) : Prop :=
  let answer := Station.answer Faulty.settleMemory
  let done := (processBatch b ms).run answer s
  ∃ items front, Comes created taken s.books ms items front done.1.books
    (noticesIn ((processBatch b ms).transcript answer s)) ∧ done.2.outcomes = items.map Item.outcome

theorem unread_comes {s : MemoryStation} (ready : Ready created taken s) (b : Backoff)
    (none_readable : readable ms = []) : BatchComes created taken b ms s := by
  unfold BatchComes
  intro answer done
  have unread := unread_all none_readable
  obtain ⟨report, asked⟩ := batch_unread Faulty.settleMemory b unread s
  have books : done.1.books = s.books := aside_books (unread_trouble b none_readable) s
  have nobody : ms.filterMap ticketOf = [] := by
    refine List.filterMap_eq_nil_iff.mpr ?_
    intro m member
    obtain ⟨detail, decoded⟩ := unread m member
    simp [ticketOf, decoded, Except.toOption]
  refine ⟨ms.map fun _ => .refused .undecodable, [], ⟨settles_unread unread, ?_, ?_, ?_, ?_⟩, ?_⟩
  · rw [nobody, books]
    rfl
  · rw [books]
    exact (List.append_nil _).symm
  · rw [books]
    exact (Int.add_zero _).symm
  · have silent : (ms.map fun _ => Item.refused .undecodable).filterMap (Item.notice? taken) = [] := by
      rw [List.filterMap_map]
      exact List.filterMap_eq_nil_iff.mpr fun _ _ => rfl
    rw [asked, noticesIn_append, screen_notices, closing_notices, ready.taken, silent]
  · rw [show done.2 = _ from report, List.map_map]
    rfl

theorem calm_attempt {s : MemoryStation} (ready : Ready created taken s) (ms : List Message) :
    let answer := Station.answer Faulty.settleMemory
    ∃ t slots items front, (attempt (ms.map placeOf)).run answer s = (t, slots, .ok items) ∧ Settles ms items front ∧
      Filing created s (s.books.shelf.serveAll (ms.filterMap ticketOf)) (.settled front) t ∧
      noticesIn ((attempt (ms.map placeOf)).transcript answer s) = [] := by
  intro answer
  have start := filing_start ready.calm ready.pinned (ms.filterMap ticketOf)
  rw [← waitingOf_places] at start
  have tried := attempt_run (R := Filing created s _) (fun _ _ _ h => filing_answer h) (places_fit ms) start
  have unfailed : failuresIn ((attempt (ms.map placeOf)).transcript answer s) = [] :=
    calm_failures (attempt_keeps (places_fit ms) []) ready.calm nofun
  rcases attempted : (attempt (ms.map placeOf)).run answer s with ⟨t, slots, result⟩
  simp only [answer] at attempted unfailed
  simp only [attempted] at tried
  cases result with
  | error f =>
    have failed := tried.failures
    rw [unfailed] at failed
    cases failed
  | ok items =>
    obtain ⟨front, settles, filing⟩ := tried.settled items rfl
    rw [waitingOf_places] at filing
    exact ⟨t, slots, items, front, rfl, settles, filing, noticesIn_unsent tried.unsent⟩

theorem readable_comes {s : MemoryStation} (ready : Ready created taken s) (b : Backoff)
    (some_readable : readable ms ≠ []) : BatchComes created taken b ms s := by
  unfold BatchComes
  intro answer done
  obtain ⟨ran, asked⟩ := batch_attempted Faulty.settleMemory b some_readable s
  have before := aside_books (screen_trouble ms {}) s
  have ready_then := ready_run (screen ms) ready
  generalize ((screen ms).run answer s).1 = u at ran asked before ready_then
  obtain ⟨t, slots, items, front, attempted, settles, filing, unsent⟩ := calm_attempt ready_then ms
  obtain ⟨finished, settled⟩ := settle_committed Faulty.settleMemory b b.retries 1 b.initial attempted
  simp only [finished] at ran asked
  have ready_now : Ready created taken t := by
    have later := ready_run (attempt (ms.map placeOf)) ready_then
    rwa [attempted] at later
  have outcomes : ((conclude items).run answer t).2 = items.map Item.outcome :=
    (Program.keeps_leads (conclude_trouble items {}) ((conclude items).leads_transcript answer t)).2
  have books : done.1.books = t.books := by
    rw [show done = _ from ran]
    exact (aside_books (closing_trouble _ {}) _).trans (aside_books (conclude_trouble items {}) t)
  refine ⟨items, front, ⟨settles, ?_, ?_, ?_, ?_⟩, ?_⟩
  · rw [← before, books]
    exact promised_settled filing.clearing.promised
  · rw [← before, books]
    exact filing.files.2
  · rw [← before, books]
    exact filing.files.1
  · rw [asked, settled, noticesIn_append, noticesIn_append, noticesIn_append, screen_notices, unsent, conclude_notices,
      closing_notices, ready.taken, ready_now.taken, List.nil_append, List.append_nil]
  · rw [show done = _ from ran]
    exact outcomes

theorem calm_comes {s : MemoryStation} (ready : Ready created taken s) (b : Backoff) (ms : List Message) :
    BatchComes created taken b ms s := by
  by_cases none : readable ms = []
  · exact unread_comes ready b none
  · exact readable_comes ready b none

structure Settling where
  station : MemoryStation
  outcomes : List Outcome
  notices : List Notice

def settleAll (b : Backoff) : MemoryStation → List (Instant × List Message) → Settling
  | s, [] => ⟨s, [], []⟩
  | s, (now, ms) :: batches =>
    let answer := Station.answer Faulty.settleMemory
    let batch := processBatch b ms
    let done := batch.run answer { s with now }
    let later := settleAll b done.1 batches
    ⟨later.station, done.2.outcomes ++ later.outcomes, noticesIn (batch.transcript answer { s with now }) ++ later.notices⟩

theorem settleAll_comes (b : Backoff) {s : MemoryStation} (ready : Ready created taken s)
    (batches : List (Instant × List Message)) :
    let all := settleAll b s batches
    ∃ items front, Comes created taken s.books (batches.map Prod.snd).flatten items front all.station.books all.notices ∧
      all.outcomes = items.map Item.outcome := by
  induction batches generalizing s with
  | nil => exact ⟨[], [], comes_nil created taken s.books, rfl⟩
  | cons batch batches ih =>
    obtain ⟨now, ms⟩ := batch
    have ready_now : Ready created taken { s with now } := ⟨ready.calm, ready.pinned, ready.taken⟩
    obtain ⟨items, front, first, outcomes⟩ := calm_comes ready_now b ms
    obtain ⟨items', front', rest, outcomes'⟩ := ih (ready_run (processBatch b ms) ready_now)
    refine ⟨items ++ items', front ++ front', comes_append first rest, ?_⟩
    rw [List.map_append, ← outcomes, ← outcomes']
    rfl

/-- Two ways of settling have come to the same. -/
structure Alike (x y : Settling) : Prop where
  outcomes : x.outcomes = y.outcomes
  campaigns : ∀ id, x.station.store.inner.campaign? id = y.station.store.inner.campaign? id
  records : x.station.store.inner.records = y.station.store.inner.records
  lastRecord : x.station.store.inner.lastRecord = y.station.store.inner.lastRecord
  sequence : x.station.sequence = y.station.sequence
  notices : x.notices.Perm y.notices

/-- However the messages are cut into batches, and whenever each of them is settled. -/
theorem cutting_changes_nothing (s : MemoryStation) (b : Backoff) (calm : s.store.Calm)
    (pinned : s.store.inner.clock = some created) (batches : List (Instant × List Message))
    (singles : List (Instant × Message)) (same : (batches.map Prod.snd).flatten = singles.map Prod.snd) :
    Alike (settleAll b s batches) (settleAll b s (singles.map fun x => (x.1, [x.2]))) := by
  have ready : Ready created (!s.sink.failing) s := ⟨calm, pinned, rfl⟩
  obtain ⟨items, front, cut, outcomes⟩ := settleAll_comes b ready batches
  obtain ⟨items', front', apart, outcomes'⟩ := settleAll_comes b ready (singles.map fun x => (x.1, [x.2]))
  have alone : ((singles.map fun x => (x.1, [x.2])).map Prod.snd).flatten = singles.map Prod.snd := by
    rw [List.map_map, List.flatten_eq_flatMap, List.flatMap_map]
    exact List.flatMap_pure_eq_map Prod.snd singles
  rw [alone, ← same] at apart
  obtain ⟨rfl, books, notices⟩ := comes_unique cut apart
  obtain ⟨shelf, records, last⟩ := Books.mk.inj books
  obtain ⟨campaigns, sequence⟩ := Shelf.mk.inj shelf
  constructor
  · exact outcomes.trans outcomes'.symm
  · intro id
    exact congrFun campaigns id
  · exact records
  · exact last
  · exact congrArg Sequence.mk sequence
  · exact notices

def nextMidnight : Instant := ⟨⟨1, by decide⟩, .midnight⟩

def mixed : List Message :=
  [⟨some "lost", "\x7b\"campaignId\":9,\"userId\":7\x7d".toUTF8.toList, ⟨0, 0, none⟩⟩,
    ⟨none, "torn".toUTF8.toList, ⟨0, 1, none⟩⟩, taking 0 2, taking 0 3]

def pinnedStand : MemoryStation :=
  { stand with store := ⟨{ MemoryLedger.opening [⟨1, 1, epoch⟩] with clock := some nextMidnight, lastRecord := 40 }, []⟩ }

theorem cutting_changes_nothing_mixed :
    let cut := settleAll twice pinnedStand [(epoch, mixed.take 3), (nextMidnight, []), (nextMidnight, mixed.drop 3)]
    let alone := settleAll twice pinnedStand (mixed.map fun m => (epoch, [m]))
    pinnedStand.store.Calm ∧ pinnedStand.store.inner.clock = some nextMidnight ∧
      cut.outcomes = [.deadLettered .unknownCampaign, .deadLettered .undecodable, .settled .success 1, .settled .fail 2] ∧
      cut.station.store.inner.records.map Record.id = [41, 42] ∧ cut.notices ≠ alone.notices ∧ Alike cut alone := by
  have calm : pinnedStand.store.Calm := ⟨rfl, rfl, rfl, rfl⟩
  have pinned : pinnedStand.store.inner.clock = some nextMidnight := rfl
  refine ⟨calm, pinned, by decide +kernel, by decide +kernel, by decide +kernel, ?_⟩
  have alike := cutting_changes_nothing pinnedStand twice calm pinned
    [(epoch, mixed.take 3), (nextMidnight, []), (nextMidnight, mixed.drop 3)] (mixed.map fun m => (epoch, m)) rfl
  rwa [List.map_map] at alike

end CampaignSettlement.Settlement
