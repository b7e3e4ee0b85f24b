import CampaignSettlement.Ledger.Books
import CampaignSettlement.Proofs.Ledger.Rows

/-!
What statements leave behind. A query leaves the tables as they are and, when it is answered, tells what is in them; a
write of totals that fails has written nothing.
-/
namespace CampaignSettlement.Ledger

variable {w : Window} {only : Option Int} {f : Fault}

theorem MemoryLedger.writeTotals_failed {l : MemoryLedger} (failed : (l.writeTotals w only).2 = .error f) :
    (l.writeTotals w only).1 = l := by
  cases fault : l.totalsFault only with
  | some f => rw [writeTotals_fails fault]
  | none =>
    rw [writeTotals_passes fault] at failed
    cases failed

namespace SqlLedger

variable {l : SqlLedger} {s : Statement}

theorem tables_pass (l : SqlLedger) (s : Statement) : (l.pass s).1.tables = l.tables := by
  unfold pass
  split
  · rfl
  · rfl
  · split <;> rfl

theorem query_ok {α : Type} {read : Tables → α} {a : α} (answered : (l.query s read).2 = .ok a) : a = read l.tables := by
  have kept := l.tables_pass s
  unfold query at answered
  generalize l.pass s = passed at answered kept
  obtain ⟨l', reply⟩ := passed
  cases reply with
  | error f => cases answered
  | ok u =>
    cases answered
    exact congrArg read kept

theorem write_failed (failed : (totals.write l w only).2 = .error f) : (totals.write l w only).1.tables = l.tables := by
  have kept := l.tables_pass .upsert
  simp only [totals] at failed ⊢
  generalize l.pass .upsert = passed at failed kept ⊢
  obtain ⟨l', reply⟩ := passed
  cases reply with
  | error f => exact kept
  | ok u => cases failed

end SqlLedger

namespace Books

def stats (b : Books) : Table StatKey DailyStat × Table StatKey DailyStat := (b.memory.stats, b.database.tables.stats)

theorem stats_campaigns (b : Books) (w : Window) : (totals.campaigns b w).1.stats = b.stats := by
  unfold totals
  dsimp only
  split
  · exact congrArg (fun t : Tables => (b.memory.stats, t.stats)) (b.database.tables_pass .distinct)
  · rfl

theorem stats_failed {b : Books} (failed : (totals.write b w only).2 = .error f) :
    (totals.write b w only).1.stats = b.stats := by
  unfold totals at failed ⊢
  dsimp only at failed ⊢
  split at failed
  · next database =>
    rw [if_pos database]
    exact congrArg (fun t : Tables => (b.memory.stats, t.stats)) (SqlLedger.write_failed failed)
  · next memory =>
    rw [if_neg memory]
    exact congrArg (fun l : MemoryLedger => (l.stats, b.database.tables.stats)) (MemoryLedger.writeTotals_failed failed)

end Books

end CampaignSettlement.Ledger
