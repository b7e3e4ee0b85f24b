import CampaignSettlement.Settlement.Course

/-!
Watches over programs. A watch has a view of what a program has asked and been answered, says which
question it lets pass in that view, and moves on with the answer. A program keeps to a watch when it does
so whatever the answers are; what a watch knows at the end is then known of every run, and what it lets
pass is all that is asked on the way, also when other programs take turns in between.
-/
namespace CampaignSettlement.Settlement

structure Watch (τ : Type) where
  allows : τ → Ask → Prop
  after : τ → (q : Ask) → q.Reply → τ

namespace Watch

variable {τ υ : Type}

def track (w : Watch τ) (t : τ) (xs : List Exchange) : τ := xs.foldl (fun t x => w.after t x.1 x.2) t

theorem track_append (w : Watch τ) (t : τ) (xs ys : List Exchange) :
    w.track t (xs ++ ys) = w.track (w.track t xs) ys :=
  List.foldl_append

/-- The views of `v` follow those of `w` along `R`, for all questions that `w` lets pass. -/
def Refines (w : Watch τ) (v : Watch υ) (R : τ → υ → Prop) : Prop :=
  ∀ t u q, R t u → w.allows t q → v.allows u q ∧ ∀ r, R (w.after t q r) (v.after u q r)

end Watch

namespace Program

variable {α β τ υ : Type} {w : Watch τ} {v : Watch υ}

def Keeps (w : Watch τ) (post : τ → α → Prop) : Program α → τ → Prop
  | done a, t => post t a
  | ask q next, t => w.allows t q ∧ ∀ r, (next r).Keeps w post (w.after t q r)

@[simp] theorem keeps_done (post : τ → α → Prop) (a : α) (t : τ) : (done a).Keeps w post t ↔ post t a := Iff.rfl

theorem keeps_mono {post post' : τ → α → Prop} {p : Program α} {t : τ} (h : p.Keeps w post t)
    (weaker : ∀ t a, post t a → post' t a) : p.Keeps w post' t := by
  induction p generalizing t with
  | done a => exact weaker t a h
  | ask q next ih => exact ⟨h.1, fun r => ih r (h.2 r)⟩

theorem keeps_free (free : ∀ t q, w.allows t q) (p : Program α) (t : τ) : p.Keeps w (fun _ _ => True) t := by
  induction p generalizing t with
  | done a => trivial
  | ask q next ih => exact ⟨free t q, fun r => ih r _⟩

theorem keeps_seq {mid : τ → α → Prop} {post : τ → β → Prop} {p : Program α} {f : α → Program β} {t : τ}
    (first : p.Keeps w mid t) (second : ∀ t a, mid t a → (f a).Keeps w post t) : (p.bind f).Keeps w post t := by
  induction p generalizing t with
  | done a => exact second t a first
  | ask q next ih => exact ⟨first.1, fun r => ih r (first.2 r)⟩

theorem keeps_and {post : τ → α → Prop} {post' : υ → α → Prop} {p : Program α} {t : τ} {u : υ}
    (h : p.Keeps w post t) (other : p.Keeps v post' u) : p.Keeps w (fun t a => post t a ∧ ∃ u, post' u a) t := by
  induction p generalizing t u with
  | done a => exact ⟨h, u, other⟩
  | ask q next ih => exact ⟨h.1, fun r => ih r (h.2 r) (other.2 r)⟩

theorem keeps_leads {post : τ → α → Prop} {p rest : Program α} {xs : List Exchange} {t : τ}
    (h : p.Keeps w post t) (course : p.Leads xs rest) : rest.Keeps w post (w.track t xs) := by
  induction course generalizing t with
  | here p => exact h
  | ask q next r course ih => exact ih (h.2 r)

theorem asked_allowed {post : τ → α → Prop} {p rest : Program α} {xs : List Exchange} {t : τ}
    (h : p.Keeps w post t) (course : p.Leads xs rest) : ∀ x ∈ xs, ∃ t, w.allows t x.1 := by
  induction course generalizing t with
  | here p => intro x member; cases member
  | ask q next r course ih =>
    intro x member
    rcases List.mem_cons.mp member with same | later
    · subst same
      exact ⟨t, h.1⟩
    · exact ih (h.2 r) x later

theorem allowed_next {post : τ → α → Prop} {p rest : Program α} {xs ys : List Exchange} {x : Exchange} {t : τ}
    (h : p.Keeps w post t) (course : p.Leads (xs ++ x :: ys) rest) : w.allows (w.track t xs) x.1 := by
  induction xs generalizing p t with
  | nil =>
    cases course with
    | ask q next r later => exact h.1
  | cons y xs ih =>
    cases course with
    | ask q next r later => exact ih (h.2 r) later

theorem keeps_refines {post : τ → α → Prop} {R : τ → υ → Prop} {p : Program α} {t : τ} {u : υ}
    (refines : w.Refines v R) (related : R t u) (h : p.Keeps w post t) :
    p.Keeps v (fun u a => ∃ t, R t u ∧ post t a) u := by
  induction p generalizing t u with
  | done a => exact ⟨t, related, h⟩
  | ask q next ih =>
    have step := refines t u q related h.1
    exact ⟨step.1, fun r => ih r (step.2 r) (h.2 r)⟩

theorem track_refines {post : τ → α → Prop} {R : τ → υ → Prop} {p rest : Program α} {xs : List Exchange} {t : τ}
    {u : υ} (refines : w.Refines v R) (related : R t u) (h : p.Keeps w post t) (course : p.Leads xs rest) :
    R (w.track t xs) (v.track u xs) := by
  induction course generalizing t u with
  | here p => exact related
  | ask q next r course ih => exact ih ((refines t u q related h.1).2 r) (h.2 r)

/-- What every question that is let pass preserves holds of all views that are reached. -/
theorem track_preserves {post : τ → α → Prop} {P : τ → Prop} {p rest : Program α} {xs : List Exchange} {t : τ}
    (h : p.Keeps w post t) (course : p.Leads xs rest) (start : P t)
    (preserves : ∀ t q, P t → w.allows t q → ∀ r, P (w.after t q r)) : P (w.track t xs) :=
  track_refines (v := ⟨fun _ _ => True, fun _ _ _ => ()⟩) (R := fun t (_ : Unit) => P t) (u := ())
    (fun t _ q holds allowed => ⟨trivial, preserves t q holds allowed⟩) start h course

/-- After part of a program in sequence, either the first program is still under way, or it has ended and
the second has begun. -/
theorem leads_bind {p : Program α} {f : α → Program β} {xs : List Exchange} {rest : Program β}
    (h : (p.bind f).Leads xs rest) :
    (∃ left, p.Leads xs left ∧ rest = left.bind f) ∨
      ∃ ys zs a, xs = ys ++ zs ∧ p.Leads ys (done a) ∧ (f a).Leads zs rest := by
  induction p generalizing xs with
  | done a => exact Or.inr ⟨[], xs, a, rfl, .here _, h⟩
  | ask q next ih =>
    cases h with
    | here => exact Or.inl ⟨_, .here _, rfl⟩
    | ask _ _ r later =>
      rcases ih r later with ⟨left, first, same⟩ | ⟨ys, zs, a, split, first, second⟩
      · exact Or.inl ⟨left, .ask q next r first, same⟩
      · exact Or.inr ⟨⟨q, r⟩ :: ys, zs, a, by rw [split, List.cons_append], .ask q next r first, second⟩

variable {σ : Type}

theorem transcript_bind (answer : σ → (q : Ask) → σ × q.Reply) (p : Program α) (f : α → Program β) (s : σ) :
    (p.bind f).transcript answer s =
      p.transcript answer s ++ (f (p.run answer s).2).transcript answer (p.run answer s).1 := by
  induction p generalizing s with
  | done a => rfl
  | ask q next ih => simp only [bind_ask, transcript, run, ih, List.cons_append]

theorem run_preserves {post : τ → α → Prop} {R : τ → σ → Prop} (answer : σ → (q : Ask) → σ × q.Reply)
    {p : Program α} {t : τ} {s : σ} (h : p.Keeps w post t) (start : R t s)
    (preserves : ∀ t s q, R t s → w.allows t q → R (w.after t q (answer s q).2) (answer s q).1) :
    R (w.track t (p.transcript answer s)) (p.run answer s).1 := by
  induction p generalizing t s with
  | done a => exact start
  | ask q next ih => exact ih _ (h.2 _) (preserves t s q start h.1)

end Program

end CampaignSettlement.Settlement
