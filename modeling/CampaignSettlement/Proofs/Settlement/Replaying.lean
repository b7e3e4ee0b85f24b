import CampaignSettlement.Proofs.Settlement.Enclosing
import CampaignSettlement.Proofs.Settlement.Selling
import CampaignSettlement.Proofs.Wire.Replay
import CampaignSettlement.Proofs.Wire.RoundTrip

/-!
Replaying dead letters. Whoever reads the dead-letter topic finds every letter as it was sealed, and in its texts the
messages that were taken out of settlement: what could be read before can be read again, with the same event.
-/
namespace CampaignSettlement.Settlement

open Calendar (Instant)
open Ledger (Faulty MemoryLedger Settler)
open Text.Utf8 (decode? encode)
open Wire (Envelope Message)

/-- What a reader of the topic makes of the bytes of a letter. -/
structure Legible (e : Envelope) : Prop where
  read : Json.document Envelope.reader (encode e.text) = .ok e
  counted : e.count = e.carried.length
  sized : e.size.isSome ↔ e.together.isSome

theorem seals_legible {ms : List Message} {clock : List Instant} {e : Envelope} (sealed : Seals ms clock e)
    (years : ∀ t ∈ clock, 0 ≤ t.date.year ∧ t.date.year ≤ 9999) (few : ms.length < 2 ^ 64) : Legible e := by
  cases sealed with
  | @single m t member read reason detail =>
    refine ⟨Envelope.document_text ⟨years t read, ?_⟩, rfl, Iff.rfl⟩
    intro n size
    cases size
  | @group gs t part read reason detail =>
    refine ⟨Envelope.document_text ⟨years t read, ?_⟩, rfl, Iff.rfl⟩
    intro n size
    obtain rfl := Option.some.inj size
    rw [List.length_map]
    exact Nat.lt_of_le_of_lt part.length_le few

def takenOut (ms : List Message) (os : List Outcome) : List (Message × Reason) :=
  (ms.zip os).filterMap fun x => match x.2 with
    | .deadLettered reason => some (x.1, reason)
    | .settled .. => none

/-- A text in a letter gives back the message that was taken out. What could be read of it is read again off any message
with the bytes of the text, and valid bytes are the same. -/
structure GivesBack (x : Envelope × String) (y : Message × Reason) : Prop where
  reason : x.1.reason = y.2.name
  persistence : x.1.persistence = y.2.persistence
  judged : y.2 = .undecodable ↔ ∀ p, y.1.decode ≠ .ok p
  event : ∀ p, y.1.decode = .ok p → ∀ m : Message, m.payload = encode x.2 → m.decode = .ok p
  exact : ∀ s, decode? y.1.payload = some s → encode x.2 = y.1.payload

def textsOf (es : List Envelope) : List (Envelope × String) := es.flatMap fun e => e.carried.map (e, ·)

theorem posted_letter (q : Ask) :
    q.posted = (textsOf q.letter?.toList).map fun x => ⟨x.2, x.1.reason, x.1.persistence⟩ := by
  cases q with
  | publish key e => simp [textsOf, Ask.letter?, Ask.posted, Function.comp_def]
  | _ => rfl

theorem posted_texts (xs : List Exchange) : (xs.flatMap fun x => x.1.posted) =
    (textsOf (lettersIn xs)).map fun x => ⟨x.2, x.1.reason, x.1.persistence⟩ := by
  induction xs with
  | nil => rfl
  | cons x xs ih =>
    rw [List.flatMap_cons, ih, posted_letter, ← List.map_append]
    cases sent : x.1.letter? <;> simp [lettersIn, textsOf, sent]

theorem takenOut_posted (ms : List Message) (os : List Outcome) :
    ((ms.zip os).filterMap fun x => letterOf x.1 x.2) = (takenOut ms os).map fun y => .of y.1 y.2 := by
  rw [takenOut, List.map_filterMap]
  congr 1
  funext x
  obtain ⟨m, o⟩ := x
  cases o <;> rfl

theorem takenOut_judged {ms : List Message} {os : List Outcome} (judged : List.Forall₂ Judged ms os) :
    ∀ y ∈ takenOut ms os, y.2 = .undecodable ↔ ∀ p, y.1.decode ≠ .ok p := by
  intro y member
  obtain ⟨⟨m, o⟩, zipped, taken⟩ := List.mem_filterMap.mp member
  cases o with
  | settled r n => cases taken
  | deadLettered reason =>
    obtain rfl := Option.some.inj taken
    have here : Judged m (.deadLettered reason) := List.forall₂_zip judged zipped
    rwa [Judged, Outcome.deadLettered.injEq] at here

/-- What can be done with the letters `es` of a batch: all can be read, and their texts give back, one for one, the
messages that were taken out. -/
structure Replayable (ms : List Message) (os : List Outcome) (es : List Envelope) : Prop where
  legible : ∀ e ∈ es, Legible e
  originals : ∃ ys, List.Forall₂ GivesBack (textsOf es) ys ∧ ys.Perm (takenOut ms os)

theorem gives_back {x : Envelope × String} {y : Message × Reason}
    (judged : y.2 = .undecodable ↔ ∀ p, y.1.decode ≠ .ok p)
    (posted : Posted.mk x.2 x.1.reason x.1.persistence = .of y.1 y.2) : GivesBack x y := by
  obtain ⟨text, reason, persistence⟩ := Posted.mk.inj posted
  refine ⟨reason, persistence, judged, ?_, ?_⟩
  · intro p decoded m payload
    exact Message.decode_text decoded (by rw [payload, text])
  · intro s valid
    rw [text]
    exact Message.text_exact valid

theorem accountsFor_originals {ms : List Message} {os : List Outcome} {xs : List Exchange} {tally : Tally}
    (accounts : AccountsFor ms os (xs.flatMap fun x => x.1.posted) tally) :
    ∃ ys, List.Forall₂ GivesBack (textsOf (lettersIn xs)) ys ∧ ys.Perm (takenOut ms os) := by
  have posted := accounts.posted
  rw [posted_texts, takenOut_posted] at posted
  have own : List.Forall₂ (fun (posted : Posted) y => posted = .of y.1 y.2 ∧ y ∈ takenOut ms os)
      ((takenOut ms os).map fun y => .of y.1 y.2) (takenOut ms os) := by
    rw [List.forall₂_map_left_iff, List.forall₂_same]
    exact fun y member => ⟨rfl, member⟩
  obtain ⟨ys, matched, perm⟩ := List.perm_comp_forall₂ posted own
  refine ⟨ys, ?_, perm⟩
  refine (List.forall₂_map_left_iff.mp matched).imp ?_
  rintro x y ⟨same, member⟩
  exact gives_back (takenOut_judged accounts.judged y member) same

/-- Dead letters can be replayed, whatever the answers of the store, of the topic and of all others are. The clock shows
years of four digits, and no batch has more messages than a machine can count. -/
theorem dead_letters_replayed {σ : Type} (answer : σ → (q : Ask) → σ × q.Reply) (s : σ) (b : Backoff)
    (ms : List Message)
    (years : ∀ t ∈ readingsIn ((processBatch b ms).transcript answer s), 0 ≤ t.date.year ∧ t.date.year ≤ 9999)
    (few : ms.length < 2 ^ 64) :
    Replayable ms ((processBatch b ms).run answer s).2.outcomes
      (lettersIn ((processBatch b ms).transcript answer s)) where
  legible := by
    intro e sent
    have course := (processBatch b ms).leads_transcript answer s
    exact seals_legible (letters_sealed course e sent) years few
  originals := accountsFor_originals (processBatch_accountsFor answer s b ms)

def damaged : List Message :=
  [taking 0 0,
    ⟨some "eight", "\x7b\"note\":\"".toUTF8.toList ++ [0xFF, 0xE2, 0x82] ++
      "\",\"campaignId\":1,\"userId\":8\x7d".toUTF8.toList, ⟨0, 1, none⟩⟩,
    ⟨none, "\x7b\"userId\":8".toUTF8.toList ++ [0xC3], ⟨0, 2, none⟩⟩]

def refusingStand : Station (Faulty MemoryLedger) :=
  (stand.opening [⟨1, 1, epoch⟩] []).change Faulty.arm (.store (.mishaps { rejectAppends := true }))

theorem dead_letters_replayed_damaged :
    let batch := processBatch twice damaged
    let report := (batch.run (Station.answer Faulty.settleMemory) refusingStand).2
    let letters := lettersIn (batch.transcript (Station.answer Faulty.settleMemory) refusingStand)
    report.outcomes = [.deadLettered .storeRejected, .deadLettered .storeRejected, .deadLettered .undecodable] ∧
      letters.map Envelope.count = [1, 2] ∧ Replayable damaged report.outcomes letters := by
  refine ⟨by decide +kernel, by decide +kernel, ?_⟩
  exact dead_letters_replayed _ refusingStand twice damaged (by decide +kernel) (by decide)

section
variable {σ α : Type} (settler : Instant → Settler σ)

theorem answer_sends (s : Station σ) (q : Ask) : ∀ l ∈ (s.answer settler q).1.sink.sent,
    l ∈ s.sink.sent ∨ ∃ key e, q = .publish key e ∧ l = ⟨s.deadLetterTopic, key, e.text⟩ := by
  intro l sent
  cases q with
  | publish key e =>
    cases failing : s.sink.failing <;> simp_all [Station.answer, Wire.Sink.send]
  | ack partition offset =>
    left
    simp only [Station.answer, Station.ack] at sent
    split at sent <;> exact sent
  | _ => exact .inl sent

theorem run_sends (p : Program α) (s : Station σ) : ∀ l ∈ (s.perform settler p).1.sink.sent,
    l ∈ s.sink.sent ∨ ∃ e ∈ lettersIn (p.transcript (Station.answer settler) s), l.payload = e.text := by
  induction p generalizing s with
  | done a => exact fun l before => .inl before
  | ask q next ih =>
    intro l sent
    rcases ih _ _ l sent with before | ⟨e, later, same⟩
    · rcases answer_sends settler s q l before with before | ⟨key, e, rfl, rfl⟩
      · exact .inl before
      · exact .inr ⟨e, by simp [Program.transcript, lettersIn, Ask.letter?], rfl⟩
    · refine .inr ⟨e, ?_, same⟩
      simp only [Program.transcript, lettersIn, List.mem_filterMap, List.mem_cons] at later ⊢
      obtain ⟨x, member, letter⟩ := later
      exact ⟨x, .inr member, letter⟩

theorem readings_still (p : Program α) (s : Station σ) :
    ∀ t ∈ readingsIn (p.transcript (Station.answer settler) s), t = s.now := by
  induction p generalizing s with
  | done a => simp [Program.transcript, readingsIn]
  | ask q next ih =>
    intro t read
    obtain ⟨x, member, reading⟩ := List.mem_filterMap.mp read
    rcases List.mem_cons.mp member with rfl | later
    · cases q with
      | now => exact (Option.some.inj reading).symm
      | _ => cases reading
    · rw [← answer_now settler s q]
      exact ih _ _ t (List.mem_filterMap.mpr ⟨x, later, reading⟩)

theorem topic_legible {s : Station σ} (year : 0 ≤ s.now.date.year ∧ s.now.date.year ≤ 9999) (b : Backoff)
    {ms : List Message} (few : ms.length < 2 ^ 64) : ∀ l ∈ (s.perform settler (processBatch b ms)).1.sink.sent,
      l ∈ s.sink.sent ∨ ∃ e, Legible e ∧ l.payload = e.text := by
  intro l sent
  rcases run_sends settler _ s l sent with before | ⟨e, letter, same⟩
  · exact .inl before
  · have sealed := letters_sealed ((processBatch b ms).leads_transcript (Station.answer settler) s) e letter
    refine .inr ⟨e, seals_legible sealed ?_ few, same⟩
    intro t read
    rw [readings_still settler _ s t read]
    exact year

end

end CampaignSettlement.Settlement
