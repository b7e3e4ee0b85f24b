/-!
The global sequence: a counter that marks the order of the draws, over all partitions.
-/
namespace CampaignSettlement.Settlement

/-- In use a signed word of 64 bits that wraps around. `last` stands for it, and what is proved of draws holds of it,
until it comes to the greatest value (`draw_word`). -/
structure Sequence where
  last : Int := 0
deriving DecidableEq, Repr

namespace Sequence

def startingAfter (n : Int) : Sequence := ⟨max n 0⟩

def current (s : Sequence) : Int := s.last

def draw (s : Sequence) : Sequence × Int := (⟨s.last + 1⟩, s.last + 1)

theorem draw_word (s : Sequence) (least : 0 ≤ s.last) (below : s.last < Int64.maxValue.toInt) :
    (Int64.ofInt s.last + 1).toInt = s.draw.2 := by
  have most : Int64.maxValue.toInt = 9223372036854775807 := by decide
  have next : Int64.ofInt s.last + 1 = Int64.ofInt (s.last + 1) := (Int64.ofInt_add s.last 1).symm
  rw [next, Int64.toInt_ofInt_of_le (by omega) (by omega)]
  rfl

end Sequence

end CampaignSettlement.Settlement
