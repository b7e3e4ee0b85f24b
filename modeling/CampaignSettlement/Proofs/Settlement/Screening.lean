import CampaignSettlement.Proofs.Settlement.Conservation
import CampaignSettlement.Proofs.Settlement.Reading
import CampaignSettlement.Proofs.Settlement.Selling
import CampaignSettlement.Proofs.Wire.Accepting

/-!
Payloads that are refused. They tell no event, so their messages are dead-lettered before any transaction is begun; and
the units of stock that a transaction asks for are for other messages of the batch, each for its own.
-/
namespace CampaignSettlement.Settlement

open Json (skipBlanks)
open Json.Grammar (Blanks Content Object skipBlanks_eq_cons)
open Ledger (Faulty)
open Wire (Message Participation Tells decode_iff_tells)

/-! The campaigns for which units of stock were asked since the last transaction was begun. -/

namespace Units

def after : List Int → (q : Ask) → q.Reply → List Int
  | _, .store .begin, _ => []
  | us, .store (.decrement _ campaign), _ => us ++ [campaign]
  | us, _, _ => us

def watch : Watch (List Int) := ⟨fun _ _ => True, after⟩

/-- The tickets for which units may have been asked. -/
def asking : Desk → List Ticket
  | .opened _ front .looking _ | .opened _ front .taking _ => front.map Passed.ticket
  | .opened _ front _ back => front.map Passed.ticket ++ back.take 1
  | d => d.tickets

def campaignsOf (ts : List Ticket) : List Int := ts.map fun t => t.event.campaign

theorem asking_sublist (d : Desk) : (asking d).Sublist d.tickets := by
  cases d with
  | idle | settled => exact .refl _
  | opened work front step back =>
    cases step with
    | looking | taking => exact List.sublist_append_left _ _
    | writing | failing => exact (List.take_sublist 1 back).append_left _

theorem after_quiet (us : List Int) {q : Ask} (h : ¬Desk.Counts q) (r : q.Reply) : after us q r = us := by
  cases q with
  | store c => exact absurd trivial h
  | _ => rfl

theorem sublist_after {d : Desk} {us : List Int} {q : Ask} (part : us.Sublist (campaignsOf (asking d)))
    (allowed : d.allows q) (r : q.Reply) : (after us q r).Sublist (campaignsOf (asking (d.after q r))) := by
  have goes := desk_goes allowed r
  generalize d.after q r = d' at goes ⊢
  cases goes with
  | quiet d still r => rwa [after_quiet us still]
  | unbegun => exact List.nil_sublist _
  | begun => exact List.nil_sublist _
  | @failed work front step back c due within f =>
    cases due with
    | look t back =>
      refine part.trans ?_
      simp [campaignsOf, asking]
    | take t back =>
      have grown := part.append (List.Sublist.refl [t.event.campaign])
      simpa [campaignsOf, asking, after, Step.held] using grown
    | write result back numbered => exact part
    | commit => exact absurd rfl within.1
    | rollback => exact absurd rfl within.2
  | found => exact part
  | missed work front t back =>
    refine part.trans ?_
    simp [campaignsOf, asking]
  | took work front t back taken =>
    have grown := part.append (List.Sublist.refl [t.event.campaign])
    simpa [campaignsOf, asking, after] using grown
  | drew work front result back undrawn n => simpa [campaignsOf, asking, after] using part
  | wrote work front result back numbered id => simpa [campaignsOf, asking, after] using part
  | committed work front => exact part
  | uncommitted work front f => simpa [campaignsOf, asking, after, Desk.reopened, Desk.tickets] using part
  | returned work front held back r =>
    exact part.trans ((asking_sublist (.opened work front (.failing held) back)).map _)

end Units

/-- Asked in the last transaction, in turn. -/
def unitsAsked (xs : List Exchange) : List Int := Units.watch.track [] xs

theorem units_for_readable {b : Backoff} {ms : List Message} {xs : List Exchange} {rest : Program Report}
    (course : (processBatch b ms).Leads xs rest) :
    (unitsAsked xs).Sublist (ms.filterMap fun m => m.decode.toOption.map Participation.campaign) := by
  have refines : Desk.watch.Refines Units.watch fun v us =>
      v.desk.Reads ms ∧ us.Sublist (Units.campaignsOf (Units.asking v.desk)) := by
    intro v us q related allowed
    exact ⟨trivial, fun r => ⟨reads_after related.1 allowed.1 r, Units.sublist_after related.2 allowed.1 r⟩⟩
  have leads := processBatch_keeps b ms
  obtain ⟨reads, part⟩ := Program.track_refines refines ⟨reads_start ms, List.nil_sublist _⟩ leads course
  have campaigns := congrArg (List.map fun card => card.2.campaign) reads.cards
  rw [List.map_map, List.map_filterMap] at campaigns
  have readable : (fun m => (cardOf m).map fun card => card.2.campaign) =
      fun m : Message => m.decode.toOption.map Participation.campaign := by
    funext m
    rw [cardOf, Option.map_map]
    rfl
  rw [readable] at campaigns
  exact part.trans (campaigns ▸ (Units.asking_sublist _).map _)

theorem untold_iff {m : Message} : (∀ p, ¬Tells m.payload p) ↔ ∀ p, m.decode ≠ .ok p :=
  forall_congr' fun _ => not_congr decode_iff_tells.symm

theorem decode_untold {m : Message} (untold : ∀ p, ¬Tells m.payload p) :
    ∃ detail, m.decode = .error ("payload could not be decoded: " ++ detail) := by
  have unread := untold_iff.mp untold
  rw [Message.decode] at unread ⊢
  cases document : Json.document Participation.reader m.payload with
  | ok p => exact absurd (by rw [document]) (unread p)
  | error f => exact ⟨f.message m.payload, rfl⟩

/-- Payloads decide over their messages: those that tell an event are read as it; all others are faults, for which the
messages are dead-lettered, and stock is asked for the readable messages alone, at most once for each. -/
theorem payloads_decide :
    (∀ (m : Message) (p : Participation), m.decode = .ok p ↔ Tells m.payload p) ∧
    (∀ m : Message, (∀ p, ¬Tells m.payload p) →
      ∃ detail, m.decode = .error ("payload could not be decoded: " ++ detail)) ∧
    ∀ (b : Backoff) (ms : List Message),
      (∀ {σ : Type} (answer : σ → (q : Ask) → σ × q.Reply) (s : σ),
        List.Forall₂ (fun m o => o = .deadLettered .undecodable ↔ ∀ p, ¬Tells m.payload p) ms
          ((processBatch b ms).run answer s).2.outcomes) ∧
      ∀ (xs : List Exchange) (rest : Program Report), (processBatch b ms).Leads xs rest →
        (unitsAsked xs).Sublist (ms.filterMap fun m => m.decode.toOption.map Participation.campaign) := by
  refine ⟨fun m p => decode_iff_tells, fun m untold => decode_untold untold, fun b ms => ⟨?_, ?_⟩⟩
  · intro σ answer s
    have judged := (processBatch_accountsFor answer s b ms).judged
    exact judged.imp fun m o judged => judged.trans untold_iff.symm
  · intro xs rest course
    exact units_for_readable course

def twofold : Message :=
  ⟨none, "\x7b\"campaignId\":1,\"userId\":7,\"userId\":7\x7d".toUTF8.toList, ⟨0, 0, none⟩⟩

def roundabout : Message :=
  ⟨none, " \x7b\"userId\":7, \"note\":[\x7b\x7d,1e9],\"\\u0063ampaignId\":1\x7d".toUTF8.toList, ⟨0, 1, none⟩⟩

theorem payloads_decide_roundabout :
    let stop := (processBatch twice [twofold, roundabout]).run (Station.answer Faulty.settleMemory)
      (stand.opening [⟨1, 1, epoch⟩] [])
    let asked := (processBatch twice [twofold, roundabout]).transcript (Station.answer Faulty.settleMemory)
      (stand.opening [⟨1, 1, epoch⟩] [])
    Tells roundabout.payload ⟨1, 7⟩ ∧ (∀ p, ¬Tells twofold.payload p) ∧
      (∃ detail, twofold.decode = .error ("payload could not be decoded: " ++ detail)) ∧
      stop.2.outcomes = [.deadLettered .undecodable, .settled .success 1] ∧ unitsAsked asked = [1] ∧
      List.Forall₂ (fun m o => o = .deadLettered .undecodable ↔ ∀ p, ¬Tells m.payload p) [twofold, roundabout]
        stop.2.outcomes ∧
      (unitsAsked asked).Sublist
        ([twofold, roundabout].filterMap fun m => m.decode.toOption.map Participation.campaign) := by
  intro stop asked
  obtain ⟨tells, refuses, batches⟩ := payloads_decide
  obtain ⟨judged, units⟩ := batches twice [twofold, roundabout]
  have unread : twofold.decode.toOption = none := by decide +kernel
  have untold : ∀ p, ¬Tells twofold.payload p := by
    intro p told
    rw [(tells twofold p).mpr told] at unread
    cases unread
  refine ⟨(tells roundabout ⟨1, 7⟩).mp ?_, untold, refuses twofold untold, by decide +kernel, by decide +kernel,
    judged _ _, units asked _ (Program.leads_transcript _ _ _)⟩
  decide +kernel

def listed : Message := ⟨none, "[3,9]".toUTF8.toList, ⟨2, 10, none⟩⟩

def minusZero : Message := ⟨none, "\x7b\"campaignId\":-0,\"userId\":9\x7d".toUTF8.toList, ⟨2, 10, none⟩⟩

/-- A list is no object, but is read; a minus before zero makes a number that is not. -/
theorem listed_read_minusZero_refused :
    (listed.decode = .ok ⟨3, 9⟩ ∧
      ∀ (ps : List (String × Content)) (r s : List UInt8), Blanks listed.payload r → ¬Object ps r s) ∧
    ∀ p, minusZero.decode ≠ .ok p := by
  refine ⟨⟨by decide +kernel, ?_⟩, ?_⟩
  · intro ps r s blanks object
    obtain ⟨t, rfl⟩ : ∃ t, r = 123 :: t := by cases object <;> exact ⟨_, rfl⟩
    have bracket : (skipBlanks listed.payload).head? = some 91 := by decide +kernel
    rw [skipBlanks_eq_cons.mpr ⟨blanks, rfl⟩] at bracket
    exact absurd (Option.some.inj bracket) (by decide)
  · intro p read
    have unread : minusZero.decode.toOption = none := by decide +kernel
    rw [read] at unread
    cases unread

end CampaignSettlement.Settlement
