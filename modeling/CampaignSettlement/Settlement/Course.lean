import CampaignSettlement.Settlement.Program

/-!
Programs under way. What a program has asked so far, with the answers it was given, is kept beside what
is left of it; the answers may come from anywhere.
-/
namespace CampaignSettlement.Settlement

abbrev Exchange := (q : Ask) × q.Reply

namespace Program

variable {α σ : Type}

def transcript (answer : σ → (q : Ask) → σ × q.Reply) : Program α → σ → List Exchange
  | done _, _ => []
  | ask q next, s => ⟨q, (answer s q).2⟩ :: (next (answer s q).2).transcript answer (answer s q).1

/-- After the exchanges `xs` the last program is left of the first. -/
inductive Leads : Program α → List Exchange → Program α → Prop
  | here (p : Program α) : Leads p [] p
  | ask (q : Ask) (next : q.Reply → Program α) (r : q.Reply) {xs : List Exchange} {rest : Program α}
      (h : Leads (next r) xs rest) : Leads (ask q next) (⟨q, r⟩ :: xs) rest

theorem leads_transcript (answer : σ → (q : Ask) → σ × q.Reply) (p : Program α) (s : σ) :
    p.Leads (p.transcript answer s) (done (p.run answer s).2) := by
  induction p generalizing s with
  | done a => exact .here _
  | ask q next ih => exact .ask q next _ (ih _ _)

theorem Leads.trans {p q rest : Program α} {xs ys : List Exchange} (first : p.Leads xs q)
    (second : q.Leads ys rest) : p.Leads (xs ++ ys) rest := by
  induction first with
  | here p => exact second
  | ask q next r h ih => exact .ask q next r (ih second)

theorem Leads.snoc {p : Program α} {xs : List Exchange} {q : Ask} {next : q.Reply → Program α}
    (h : p.Leads xs (.ask q next)) (r : q.Reply) : p.Leads (xs ++ [⟨q, r⟩]) (next r) :=
  h.trans (.ask q next r (.here _))

end Program

structure Course (α : Type) where
  asked : List Exchange := []
  rest : Program α

namespace Course

variable {α σ : Type}

def step (answer : σ → (q : Ask) → σ × q.Reply) (s : σ) (c : Course α) : σ × Course α :=
  match c.rest with
  | .done _ => (s, c)
  | .ask q next => ((answer s q).1, ⟨c.asked ++ [⟨q, (answer s q).2⟩], next (answer s q).2⟩)

theorem step_done (answer : σ → (q : Ask) → σ × q.Reply) (s : σ) {c : Course α} {a : α} (h : c.rest = .done a) :
    c.step answer s = (s, c) := by
  simp only [step, h]

theorem step_ask (answer : σ → (q : Ask) → σ × q.Reply) (s : σ) {c : Course α} {q : Ask}
    {next : q.Reply → Program α} (h : c.rest = .ask q next) :
    c.step answer s = ((answer s q).1, ⟨c.asked ++ [⟨q, (answer s q).2⟩], next (answer s q).2⟩) := by
  simp only [step, h]

def Of (p : Program α) (c : Course α) : Prop := p.Leads c.asked c.rest

theorem of_start (p : Program α) : Of p ⟨[], p⟩ := .here p

theorem of_step {p : Program α} {c : Course α} (answer : σ → (q : Ask) → σ × q.Reply) (s : σ)
    (h : Of p c) : Of p (c.step answer s).2 := by
  cases asks : c.rest with
  | done a => rwa [step_done answer s asks]
  | ask q next =>
    rw [step_ask answer s asks]
    rw [Of, asks] at h
    exact h.snoc _

end Course

end CampaignSettlement.Settlement
