import CampaignSettlement.Proofs.Calendar.RoundTrip
import CampaignSettlement.Proofs.Json.RoundTrip
import CampaignSettlement.Wire.Message
import CampaignSettlement.Wire.Envelope

/-!
Events and envelopes are read back as they were written.
-/
namespace CampaignSettlement.Wire

open Calendar (Instant)
open Json (Fills Reader Reads RecordForm Value opens_int opens_list opens_str reads_count reads_int64 reads_list
  reads_option reads_string reads_textAs reads_variant)

theorem reads_place {σ α : Type} {name : String} {get : σ → Option α} {set : σ → α → σ} {r : Reader α} {mayEnd : Bool}
    {v : Value} {a : α} (reads : Reads r v a) (d : σ) :
    Reads ((Json.Member.place name get set r mayEnd).read d) v (set d a) := by
  intro rest stops
  simp only [Json.Member.place, reads rest stops]
  rfl

theorem fills_append {σ : Type} {ms : List (Json.Member σ)} {d d' d'' : σ} {ps qs : List (String × Value)}
    (fills : Fills ms d ps d') (more : Fills ms d' qs d'') : Fills ms d (ps ++ qs) d'' := by
  induction fills with
  | nil => exact more
  | cons found free reads _ ih => exact .cons found free reads (ih more)

namespace Participation

/-- Both numbers are integers of 64 bits. -/
structure Fits (p : Participation) : Prop where
  campaign : -2 ^ 63 ≤ p.campaign ∧ p.campaign < 2 ^ 63
  user : -2 ^ 63 ≤ p.user ∧ p.user < 2 ^ 63

theorem reads_json {p : Participation} (fits : p.Fits) : Reads reader p.json p := by
  have campaign := reads_int64 fits.campaign.1 fits.campaign.2
  have user := reads_int64 fits.user.1 fits.user.2
  have finished : form.finish ⟨some p.campaign, some p.user⟩ = .ok p := rfl
  refine RecordForm.reads_object ?_ finished
  exact .cons rfl rfl (reads_place campaign _) (.cons rfl rfl (reads_place user _) (.nil _))

end Participation

namespace Envelope

/-- The time has a year of four digits, and the size is one that a machine can hold. -/
structure Fits (e : Envelope) : Prop where
  year : 0 ≤ e.sealedAt.date.year ∧ e.sealedAt.date.year ≤ 9999
  size : ∀ n ∈ e.size, n < 2 ^ 64

theorem reads_instant {t : Instant} (year : 0 ≤ t.date.year ∧ t.date.year ≤ 9999) : Reads .instant (.instant t) t :=
  reads_textAs _ (by rw [Instant.read_text year.1 year.2]; rfl)

theorem reads_persistence (p : Persistence) : Reads Persistence.reader (.str p.name) p := by
  cases p <;> exact reads_variant rfl

theorem reads_texts (ss : List String) : Reads (.list .string) (.list .str ss) ss :=
  reads_list (fun s _ => opens_str s) (fun s _ => reads_string s)

theorem reads_json {e : Envelope} (fits : e.Fits) : Reads reader e.json e := by
  have alone : Fills form.members {} ((e.alone.map fun s => ("originalMessage", Value.str s)).toList)
      { alone := e.alone.map some } := by
    cases e.alone with
    | none => exact .nil _
    | some s => exact .cons rfl rfl (reads_place (reads_option (opens_str s) (reads_string s)) _) (.nil _)
  have together : Fills form.members { alone := e.alone.map some }
      ((e.together.map fun ss => ("originalMessages", Value.list .str ss)).toList)
      { alone := e.alone.map some, together := e.together.map some } := by
    cases e.together with
    | none => exact .nil _
    | some ss => exact .cons rfl rfl (reads_place (reads_option (opens_list _ _) (reads_texts ss)) _) (.nil _)
  have size : Fills form.members { alone := e.alone.map some, together := e.together.map some }
      ((e.size.map fun n => ("batchSize", Value.nat n)).toList)
      { alone := e.alone.map some, together := e.together.map some, size := e.size.map some } := by
    have least := fits.size
    cases held : e.size with
    | none => exact .nil _
    | some n =>
      exact .cons rfl rfl (reads_place (reads_option (opens_int n) (reads_count (least n held))) _) (.nil _)
  have others : Fills form.members
      { alone := e.alone.map some, together := e.together.map some, size := e.size.map some }
      [("errorReason", .str e.reason), ("errorType", .str e.persistence.name), ("errorMessage", .str e.detail),
        ("timestamp", .instant e.sealedAt)]
      ⟨e.alone.map some, e.together.map some, e.size.map some, some e.reason, some e.persistence, some e.detail,
        some e.sealedAt⟩ :=
    .cons rfl rfl (reads_place (reads_string _) _) <| .cons rfl rfl (reads_place (reads_persistence _) _) <|
      .cons rfl rfl (reads_place (reads_string _) _) <| .cons rfl rfl (reads_place (reads_instant fits.year) _) <|
      .nil _
  refine RecordForm.reads_object (fills_append (fills_append (fills_append alone together) size) others) ?_
  have whole : ∀ {α : Type} (o : Option α), (o.map some).getD none = o := fun o => by cases o <;> rfl
  simp only [form, whole]
  rfl

theorem document_text {e : Envelope} (fits : e.Fits) :
    Json.document reader (Text.Utf8.encode e.text) = .ok e :=
  Json.document_written (reads_json fits)

end Envelope

end CampaignSettlement.Wire
