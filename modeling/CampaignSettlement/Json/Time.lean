import CampaignSettlement.Json.Reader
import CampaignSettlement.Calendar.Reading

/-!
Dates and instants inside JSON are texts.
-/
namespace CampaignSettlement.Json

open Calendar (Date Instant)

def Value.date (d : Date) : Value := .str d.text

def Value.instant (t : Instant) : Value := .str t.text

namespace Reader

def date : Reader Date :=
  textAs "a formatted date string" fun s => (Date.read s).mapError fun f => .refused f.message

def instant : Reader Instant :=
  textAs "an RFC 3339 formatted date and time string" fun s =>
    (Instant.read s).mapError fun f => .refused f.message

end Reader

end CampaignSettlement.Json
