import CampaignSettlement.Proofs.Program.Watch

/-!
Programs that take no heed of what becomes of their letters. Two programs are indifferent to it if they ask the same
and go on alike after the same answer, and after any two answers to a letter; a failure to publish is counted by one
of them alone. Over states that do not know the fate of the letters either, the two runs then have the same result,
and the same exchanges up to the fate of the letters.
-/
namespace CampaignSettlement.Settlement

/-- Questions that are neither letters nor counts of letters that were refused. -/
def Ask.Plain : Ask → Prop
  | .publish .. | .measure .publishFailure => False
  | _ => True

theorem Ask.plain_or_letter (q : Ask) :
    q.Plain ∨ (∃ key e, q = .publish key e) ∨ q = .measure .publishFailure := by
  cases q with
  | publish key e => exact Or.inr (Or.inl ⟨key, e, rfl⟩)
  | measure m =>
    cases m with
    | publishFailure => exact Or.inr (Or.inr rfl)
    | _ => exact Or.inl trivial
  | _ => exact Or.inl trivial

/-- What is left of an exchange when nothing is said of the fate of the letters. -/
def heard? : Exchange → Option Exchange
  | ⟨.publish key e, _⟩ => some ⟨.publish key e, true⟩
  | ⟨.measure .publishFailure, _⟩ => none
  | x => some x

def heardIn (xs : List Exchange) : List Exchange := xs.filterMap heard?

theorem heard_plain {q : Ask} (plain : q.Plain) (r : q.Reply) : heard? ⟨q, r⟩ = some ⟨q, r⟩ := by
  cases q with
  | publish key e => exact absurd plain id
  | measure m =>
    cases m with
    | publishFailure => exact absurd plain id
    | _ => rfl
  | _ => rfl

theorem heardIn_plain {q : Ask} (plain : q.Plain) (r : q.Reply) (xs : List Exchange) :
    heardIn (⟨q, r⟩ :: xs) = ⟨q, r⟩ :: heardIn xs :=
  List.filterMap_cons_some (heard_plain plain r)

theorem heardIn_letter (key : String) (e : Wire.Envelope) (taken : Bool) (xs : List Exchange) :
    heardIn (⟨.publish key e, taken⟩ :: xs) = ⟨.publish key e, true⟩ :: heardIn xs := rfl

theorem tells_heard {β : Type} {tells : Exchange → Option β}
    (letter : ∀ key e taken, tells ⟨.publish key e, taken⟩ = tells ⟨.publish key e, true⟩)
    (failure : tells ⟨.measure .publishFailure, ()⟩ = none) {xs ys : List Exchange} (same : heardIn xs = heardIn ys) :
    xs.filterMap tells = ys.filterMap tells := by
  have through (x : Exchange) : (heard? x).bind tells = tells x := by
    obtain ⟨q, r⟩ := x
    cases q with
    | publish key e => exact (letter key e r).symm
    | measure m =>
      cases m with
      | publishFailure => exact failure.symm
      | _ => rfl
    | _ => rfl
  have heard (zs : List Exchange) : (heardIn zs).filterMap tells = zs.filterMap tells := by
    rw [heardIn, List.filterMap_filterMap]
    exact congrArg (List.filterMap · zs) (funext through)
  rw [← heard xs, same, heard ys]

namespace Program

variable {α α' β β' : Type}

inductive Indifferent (R : α → α' → Prop) : Program α → Program α' → Prop
  | done {a : α} {a' : α'} (h : R a a') : Indifferent R (done a) (done a')
  | ask {q : Ask} {next : q.Reply → Program α} {next' : q.Reply → Program α'} (plain : q.Plain)
      (h : ∀ r, Indifferent R (next r) (next' r)) : Indifferent R (ask q next) (ask q next')
  | letter {key : String} {e : Wire.Envelope} {next : Bool → Program α} {next' : Bool → Program α'}
      (h : ∀ taken taken', Indifferent R (next taken) (next' taken')) :
      Indifferent R (ask (.publish key e) next) (ask (.publish key e) next')
  | left {next : Unit → Program α} {p : Program α'} (h : Indifferent R (next ()) p) :
      Indifferent R (ask (.measure .publishFailure) next) p
  | right {p : Program α} {next : Unit → Program α'} (h : Indifferent R p (next ())) :
      Indifferent R p (ask (.measure .publishFailure) next)

theorem indifferent_bind {R : α → α' → Prop} {S : β → β' → Prop} {p : Program α} {p' : Program α'}
    {f : α → Program β} {f' : α' → Program β'} (first : p.Indifferent R p')
    (second : ∀ a a', R a a' → (f a).Indifferent S (f' a')) : (p.bind f).Indifferent S (p'.bind f') := by
  induction first with
  | done h => exact second _ _ h
  | ask plain h ih => exact .ask plain ih
  | letter h ih => exact .letter ih
  | left h ih => exact .left ih
  | right h ih => exact .right ih

def Heedless (p : Program α) : Prop := p.Indifferent Eq p

theorem heedless_done (a : α) : (done a).Heedless := .done rfl

theorem heedless_ask {q : Ask} {next : q.Reply → Program α} (plain : q.Plain) (h : ∀ r, (next r).Heedless) :
    (ask q next).Heedless :=
  .ask plain h

theorem heedless_seq {p : Program α} {f : α → Program β} (first : p.Heedless) (second : ∀ a, (f a).Heedless) :
    (p.bind f).Heedless := by
  refine indifferent_bind first ?_
  rintro a _ rfl
  exact second a

theorem heedless_after {p : Program α} {rest : Program β} (letter : p.Indifferent (fun _ _ => True) p)
    (later : rest.Heedless) : (p.bind fun _ => rest).Heedless :=
  indifferent_bind letter fun _ _ _ => later

theorem heedless_of_keeps {τ : Type} {w : Watch τ} {post : τ → α → Prop} {p : Program α} {t : τ}
    (h : p.Keeps w post t) (plain : ∀ t q, w.allows t q → q.Plain) : p.Heedless := by
  induction p generalizing t with
  | done a => exact heedless_done a
  | ask q next ih => exact heedless_ask (plain t q h.1) fun r => ih r (h.2 r)

/-- States on two sides that do not know the fate of the letters. -/
structure Unheeding {σ ς : Type} (answer : σ → (q : Ask) → σ × q.Reply) (answer' : ς → (q : Ask) → ς × q.Reply)
    (R : σ → ς → Prop) : Prop where
  plain : ∀ {s u q}, R s u → q.Plain →
    (answer' u q).2 = (answer s q).2 ∧ R (answer s q).1 (answer' u q).1
  letter : ∀ {s u} key e, R s u → R (answer s (.publish key e)).1 (answer' u (.publish key e)).1
  left : ∀ {s u}, R s u → R (answer s (.measure .publishFailure)).1 u
  right : ∀ {s u}, R s u → R s (answer' u (.measure .publishFailure)).1

theorem run_indifferent {σ ς : Type} {answer : σ → (q : Ask) → σ × q.Reply} {answer' : ς → (q : Ask) → ς × q.Reply}
    {R : σ → ς → Prop} (unheeding : Unheeding answer answer' R) {S : α → α' → Prop} {p : Program α} {p' : Program α'}
    (h : p.Indifferent S p') {s : σ} {u : ς} (start : R s u) :
    S (p.run answer s).2 (p'.run answer' u).2 ∧
      heardIn (p.transcript answer s) = heardIn (p'.transcript answer' u) ∧
        R (p.run answer s).1 (p'.run answer' u).1 := by
  induction h generalizing s u with
  | done h => exact ⟨h, rfl, start⟩
  | @ask q next next' plain h ih =>
    obtain ⟨reply, later⟩ := unheeding.plain start plain
    obtain ⟨result, asked, ended⟩ := ih (answer s q).2 later
    dsimp only [run, transcript]
    rw [reply, heardIn_plain plain, heardIn_plain plain, asked]
    exact ⟨result, rfl, ended⟩
  | @letter key e next next' h ih =>
    obtain ⟨result, asked, ended⟩ := ih (answer s (.publish key e)).2 (answer' u (.publish key e)).2
      (unheeding.letter key e start)
    dsimp only [run, transcript]
    rw [heardIn_letter, heardIn_letter, asked]
    exact ⟨result, rfl, ended⟩
  | left h ih => exact ih (unheeding.left start)
  | right h ih => exact ih (unheeding.right start)

end Program

end CampaignSettlement.Settlement
