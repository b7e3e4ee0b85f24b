import CampaignSettlement.Proofs.Program.Watch

/-!
One program over two kinds of states. If questions that a watch lets pass are answered alike on both sides, and
the states go on to correspond, the two runs ask the same questions and come to the same result.
-/
namespace CampaignSettlement.Settlement.Program

variable {α τ σ ς : Type} {w : Watch τ}

theorem run_pair {post : τ → α → Prop} {R : τ → σ → ς → Prop} (answer : σ → (q : Ask) → σ × q.Reply)
    (answer' : ς → (q : Ask) → ς × q.Reply) {p : Program α} {t : τ} {s : σ} {u : ς} (h : p.Keeps w post t)
    (start : R t s u)
    (alike : ∀ t s u q, R t s u → w.allows t q →
      (answer' u q).2 = (answer s q).2 ∧ R (w.after t q (answer s q).2) (answer s q).1 (answer' u q).1) :
    (p.run answer' u).2 = (p.run answer s).2 ∧ p.transcript answer' u = p.transcript answer s ∧
      ∃ t, post t (p.run answer s).2 ∧ R t (p.run answer s).1 (p.run answer' u).1 := by
  induction p generalizing t s u with
  | done a => exact ⟨rfl, rfl, t, h, start⟩
  | ask q next ih =>
    obtain ⟨reply, later⟩ := alike t s u q start h.1
    obtain ⟨result, asked, ended⟩ := ih _ (h.2 _) later
    dsimp only [run, transcript]
    rw [reply]
    exact ⟨result, by rw [asked], ended⟩

end CampaignSettlement.Settlement.Program
