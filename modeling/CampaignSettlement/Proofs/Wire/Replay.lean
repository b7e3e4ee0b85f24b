import CampaignSettlement.Proofs.Json.MendedRecords
import CampaignSettlement.Wire.Message

/-!
Replaying messages from the texts that dead letters carry. The text of a payload is the payload itself when it is valid,
and gives the same event in any case.
-/
namespace CampaignSettlement.Wire

open Json (CarriesValue Member Reader RecordForm)
open Text.Utf8 (alike_lossy decode? decode?_eq_some encode lossy_encode)

theorem carries_place {σ α : Type} {name : String} {get : σ → Option α} {set : σ → α → σ} {r : Reader α} {mayEnd : Bool}
    (carries : CarriesValue r) (d : σ) : CarriesValue ((Member.place name get set r mayEnd).read d) := by
  intro bs bs' d' rest alike read
  obtain ⟨⟨a, left⟩, value, same⟩ := Json.map_eq_ok.mp read
  obtain ⟨rfl, rfl⟩ := Prod.mk.inj same
  obtain ⟨left', value', ends⟩ := carries alike value
  exact ⟨left', Json.map_eq_ok.mpr ⟨_, value', rfl⟩, ends⟩

theorem Participation.form_plain : RecordForm.Plain form.members :=
  RecordForm.plain_cons.mpr ⟨by decide, carries_place (Reader.carries_integer _ _),
    RecordForm.plain_cons.mpr ⟨by decide, carries_place (Reader.carries_integer _ _), RecordForm.plain_nil⟩⟩

namespace Message

theorem decode_eq_ok {m : Message} {p : Participation} :
    m.decode = .ok p ↔ Json.document Participation.reader m.payload = .ok p := by
  rw [decode]
  cases Json.document Participation.reader m.payload <;> simp

theorem decode_text {m m' : Message} {p : Participation} (decoded : m.decode = .ok p)
    (replay : m'.payload = encode m.text) : m'.decode = .ok p := by
  rw [decode_eq_ok] at decoded ⊢
  rw [replay]
  exact Json.carries_document (RecordForm.carries_reader Participation.form_plain) (alike_lossy m.payload) decoded

theorem text_exact {m : Message} {s : String} (valid : decode? m.payload = some s) : encode m.text = m.payload := by
  have written := decode?_eq_some.mp valid
  rw [text, written, lossy_encode]

end Message

end CampaignSettlement.Wire
