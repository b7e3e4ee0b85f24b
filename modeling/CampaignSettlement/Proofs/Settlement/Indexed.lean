import CampaignSettlement.Proofs.Settlement.Keeping
import CampaignSettlement.Settlement.Indexed

/-!
Keeping the messages of a batch by index asks the same as going through them in order, and comes to the same report.
Every index has an outcome at the end, so what is agreed on for the others is never used.
-/
namespace CampaignSettlement.Settlement

open Ledger (Fault)
open Wire (Message)

namespace Program

variable {α α' β β' : Type}

/-- Both ask the same, whatever is answered. -/
inductive Alike (R : α → α' → Prop) : Program α → Program α' → Prop
  | done {a : α} {a' : α'} (h : R a a') : Alike R (done a) (done a')
  | ask {q : Ask} {next : q.Reply → Program α} {next' : q.Reply → Program α'} (h : ∀ r, Alike R (next r) (next' r)) :
      Alike R (ask q next) (ask q next')

theorem alike_bind {R : α → α' → Prop} {S : β → β' → Prop} {p : Program α} {p' : Program α'} {f : α → Program β}
    {f' : α' → Program β'} (first : p.Alike R p') (second : ∀ a a', R a a' → (f a).Alike S (f' a')) :
    (p.bind f).Alike S (p'.bind f') := by
  induction first with
  | done h => exact second _ _ h
  | ask h ih => exact .ask ih

theorem alike_refl (p : Program α) : p.Alike Eq p := by
  induction p with
  | done a => exact .done rfl
  | ask q next ih => exact .ask ih

theorem alike_eq {p p' : Program α} (h : p.Alike Eq p') : p = p' := by
  induction h with
  | done same => rw [same]
  | ask h ih => rw [funext ih]

theorem bind_done_id (p : Program α) : p.bind done = p := by
  induction p with
  | done a => rfl
  | ask q next ih => exact congrArg (Program.ask q) (funext ih)

theorem alike_then {R : α → α' → Prop} {S : β → α' → Prop} {p : Program α} {p' : Program α'} {f : α → Program β}
    (first : p.Alike R p') (second : ∀ a a', R a a' → (f a).Alike S (done a')) : (p.bind f).Alike S p' := by
  rw [← bind_done_id p']
  exact alike_bind first second

theorem alike_after (p : Program α) {S : β → β' → Prop} {f : α → Program β} {f' : α → Program β'}
    (second : ∀ a, (f a).Alike S (f' a)) : (p.bind f).Alike S (p.bind f') :=
  alike_bind (alike_refl p) fun a _ same => same ▸ second a

end Program

theorem Backoff.delaysFrom_next {b : Backoff} {n i : Nat} {d e : Duration}
    (entry : (b.delaysFrom n d)[i]? = some e) (more : i + 1 < n) : (b.delaysFrom n d)[i + 1]? = some (b.next e) := by
  induction n generalizing i d with
  | zero => exact absurd more (Nat.not_lt_zero _)
  | succ n ih =>
    cases i with
    | zero =>
      obtain ⟨n, rfl⟩ := Nat.exists_eq_succ_of_ne_zero (Nat.ne_of_gt (Nat.lt_of_succ_lt_succ more))
      obtain rfl := Option.some.inj entry
      rfl
    | succ i => exact ih entry (Nat.lt_of_succ_lt_succ more)

/-- The attempts as they are counted up: after attempt number `n` of those there may be, entry `n - 1` of the schedule
is waited for, or the greatest delay if there is no such entry. -/
def settleFrom (b : Backoff) (n : Nat) (slots : List Slot) : Program Report := do
  match ← attempt slots with
  | (_, .ok items) => return ⟨← conclude items, n⟩
  | (slots, .error f) =>
    if more : f.isTransient ∧ n < b.maxAttempts then
      .query (.measure .retry)
      .query (.wait (b.delays[n - 1]?.getD b.greatest))
      settleFrom b (n + 1) slots
    else return ⟨← giveUp slots (if f.isTransient then .retriesExhausted else .storeRejected) f, n⟩
termination_by b.maxAttempts - n

/-- Counting the attempts up or down is the same, and the greatest delay never stands in for an entry. -/
theorem settle_from (b : Backoff) {left n : Nat} (delay : Duration) (slots : List Slot) (counted : 1 ≤ n)
    (rest : b.maxAttempts - n = left) (entry : 0 < left → b.delays[n - 1]? = some delay) :
    settle b left n delay slots = settleFrom b n slots := by
  induction left generalizing n delay slots with
  | zero =>
    unfold settle settleFrom
    refine congrArg _ (funext ?_)
    rintro ⟨slots', result⟩
    cases result with
    | ok items => rfl
    | error f =>
      have last : ¬ n < b.maxAttempts := by omega
      cases transient : f.isTransient <;> simp [transient, last]
  | succ left ih =>
    unfold settle settleFrom
    refine congrArg _ (funext ?_)
    rintro ⟨slots', result⟩
    cases result with
    | ok items => rfl
    | error f =>
      have more : n < b.maxAttempts := by omega
      cases transient : f.isTransient with
      | false => simp [transient]
      | true =>
        have wait : b.delays[n - 1]?.getD b.greatest = delay := by
          rw [entry (Nat.succ_pos left)]
          rfl
        have later := ih (b.next delay) slots' (Nat.le_succ_of_le counted) (by omega) ?_
        · rw [wait]
          simp [transient, more, later]
        · intro further
          have next := Backoff.delaysFrom_next (entry (Nat.succ_pos left)) (show n - 1 + 1 < b.retries by
            unfold Backoff.retries
            omega)
          rwa [Nat.sub_add_cancel counted] at next

theorem settle_counted (b : Backoff) (slots : List Slot) :
    settle b b.retries 1 b.initial slots = settleFrom b 1 slots := by
  refine settle_from b b.initial slots (Nat.le_refl 1) rfl ?_
  intro some_retry
  obtain ⟨n, more⟩ := Nat.exists_eq_succ_of_ne_zero (Nat.ne_of_gt some_retry)
  rw [Backoff.delays, more]
  rfl

namespace Indexed

variable {ms : List Message} {X Y : Type}

def Pending.ticket (p : Pending ms) : Ticket := ⟨p.message, p.event, p.sequence⟩

def ItemResult.item (p : Pending ms) : ItemResult → Item
  | settled r n => .settled r n
  | campaignMissing => .unknown p.ticket

/-- How the entries of a list in order are told by their indices: an entry is refused, or stands for a `Y`. -/
structure Form (ms : List Message) (X Y : Type) where
  refused : Reason → X
  waiting : Y → X
  index : Y → Fin ms.length

def slotForm : Form ms Slot (Pending ms) := ⟨.refused, fun p => .waiting p.ticket, Pending.index⟩

def itemForm : Form ms Item (Pending ms × ItemResult) := ⟨.refused, fun x => x.2.item x.1, fun x => x.1.index⟩

/-- The entries at `is` are those that wait and those that were refused, whose outcomes have been entered. -/
inductive Splits (form : Form ms X Y) (outcomes : Outcomes ms) : List (Fin ms.length) → List X → List Y → Prop
  | nil : Splits form outcomes [] [] []
  | refused {i is xs ys} (reason : Reason) (entered : outcomes.get i = some (.deadLettered reason))
      (rest : Splits form outcomes is xs ys) : Splits form outcomes (i :: is) (form.refused reason :: xs) ys
  | waiting {i is xs ys} (y : Y) (own : form.index y = i) (rest : Splits form outcomes is xs ys) :
      Splits form outcomes (i :: is) (form.waiting y :: xs) (y :: ys)

theorem get_enter (outcomes : Outcomes ms) (i : Fin ms.length) (o : Outcome) : (outcomes.enter i o).get i = some o :=
  Vector.getElem_set_self i.isLt

theorem get_enter_other {outcomes : Outcomes ms} {i j : Fin ms.length} (other : i ≠ j) (o : Outcome) :
    (outcomes.enter i o).get j = outcomes.get j :=
  Vector.getElem_set_ne i.isLt j.isLt fun same => other (Fin.ext same)

theorem splits_enter {form : Form ms X Y} {outcomes : Outcomes ms} {is : List (Fin ms.length)} {xs : List X} {ys : List Y}
    (splits : Splits form outcomes is xs ys) {i : Fin ms.length} (apart : i ∉ is) (o : Outcome) :
    Splits form (outcomes.enter i o) is xs ys := by
  induction splits with
  | nil => exact .nil
  | @refused j is xs ys reason entered rest ih =>
    rw [List.mem_cons, not_or] at apart
    exact .refused reason ((get_enter_other apart.1 o).trans entered) (ih apart.2)
  | waiting y own rest ih => exact .waiting y own (ih fun member => apart (.tail _ member))

/-- From `outcomes` to `outcomes'`, the outcomes `os` are entered at `is`. -/
structure Enters (outcomes : Outcomes ms) (is : List (Fin ms.length)) (os : List Outcome) (outcomes' : Outcomes ms) :
    Prop where
  each : is.map outcomes'.get = os.map some
  others : ∀ i, i ∉ is → outcomes'.get i = outcomes.get i

section Enters

variable {outcomes outcomes' : Outcomes ms} {is : List (Fin ms.length)} {os : List Outcome} {i : Fin ms.length}
  {o : Outcome}

theorem enters_nil (outcomes : Outcomes ms) : Enters outcomes [] [] outcomes := ⟨rfl, fun _ _ => rfl⟩

theorem enters_kept (apart : i ∉ is) (entered : outcomes.get i = some o) (h : Enters outcomes is os outcomes') :
    Enters outcomes (i :: is) (o :: os) outcomes' := by
  constructor
  · rw [List.map_cons, List.map_cons, h.each, h.others i apart, entered]
  · exact fun j other => h.others j fun member => other (.tail _ member)

theorem enters_entered (apart : i ∉ is) (h : Enters (outcomes.enter i o) is os outcomes') :
    Enters outcomes (i :: is) (o :: os) outcomes' := by
  have kept := enters_kept apart (get_enter outcomes i o) h
  refine ⟨kept.each, fun j other => ?_⟩
  rw [List.mem_cons, not_or] at other
  exact (h.others j other.2).trans (get_enter_other (Ne.symm other.1) _)

end Enters

theorem screen_alike (is : List (Fin ms.length)) (distinct : is.Nodup) (outcomes : Outcomes ms) :
    (Settlement.screen (is.map ms.get)).Alike
      (fun slots found => Splits slotForm found.2 is slots found.1 ∧ ∀ i, i ∉ is → found.2.get i = outcomes.get i)
      (screen is outcomes) := by
  induction is generalizing outcomes with
  | nil => exact .done ⟨.nil, fun _ _ => rfl⟩
  | cons i is ih =>
    obtain ⟨apart, distinct⟩ := List.nodup_cons.mp distinct
    rw [List.map_cons]
    unfold Settlement.screen screen
    cases readable : (ms.get i).decode with
    | ok event =>
      simp only [Program.bind_eq, Program.pure_eq, Program.bind_done]
      refine Program.alike_bind (ih distinct outcomes) ?_
      rintro slots ⟨pending, found⟩ ⟨splits, others⟩
      have waits := splits.waiting (i := i) ⟨i, event, none⟩ rfl
      exact .done ⟨waits, fun j other => others j fun member => other (.tail _ member)⟩
    | error detail =>
      simp only [Program.bind_eq, Program.pure_eq, Program.bind_done]
      refine Program.alike_after _ fun _ => ?_
      refine Program.alike_then (ih distinct _) ?_
      rintro slots ⟨pending, found⟩ ⟨splits, others⟩
      have entered := (others i apart).trans (get_enter outcomes i _)
      refine .done ⟨.refused .undecodable entered splits, fun j other => ?_⟩
      rw [List.mem_cons, not_or] at other
      exact (others j other.2).trans (get_enter_other (Ne.symm other.1) _)

theorem settleItem_alike (work : Nat) (p : Pending ms) :
    (settleTicket work p.ticket).Alike
      (fun x y => x.1 = y.1.ticket ∧ y.1.index = p.index ∧ x.2 = y.2.map fun result => result.item y.1)
      (settleItem work p) := by
  unfold settleTicket settleItem
  simp only [Program.bind_eq, Program.pure_eq]
  refine Program.alike_after _ ?_
  rintro (f | known)
  · exact .done ⟨rfl, rfl, rfl⟩
  · cases known with
    | false => exact .done ⟨rfl, rfl, rfl⟩
    | true =>
      refine Program.alike_after _ ?_
      rintro (f | taken)
      · exact .done ⟨rfl, rfl, rfl⟩
      · refine Program.alike_after (Ticket.number p.ticket) fun n => ?_
        refine Program.alike_after _ ?_
        rintro (f | _)
        · exact .done ⟨rfl, rfl, rfl⟩
        · exact .done ⟨rfl, rfl, rfl⟩

inductive Left (outcomes : Outcomes ms) (is : List (Fin ms.length)) :
    List Slot × Except Fault (List Item) → List (Pending ms) × Except Fault (List ItemResult) → Prop
  | failed {slots pending} (f : Fault) (splits : Splits slotForm outcomes is slots pending) :
      Left outcomes is (slots, .error f) (pending, .error f)
  | passed {slots pending items results} (splits : Splits slotForm outcomes is slots pending)
      (told : Splits itemForm outcomes is items (pending.zip results)) :
      Left outcomes is (slots, .ok items) (pending, .ok results)

section Attempts

variable {outcomes : Outcomes ms} {is : List (Fin ms.length)} {slots : List Slot} {pending : List (Pending ms)}

theorem apply_alike (work : Nat) (splits : Splits slotForm outcomes is slots pending) :
    (Settlement.apply work slots).Alike (Left outcomes is) (apply work pending) := by
  induction splits with
  | nil => exact .done (.passed .nil .nil)
  | @refused i is slots pending reason entered rest ih =>
    refine Program.alike_then ih ?_
    rintro _ _ (⟨f, splits⟩ | ⟨splits, told⟩)
    · exact .done (.failed f (.refused reason entered splits))
    · exact .done (.passed (.refused reason entered splits) (.refused reason entered told))
  | @waiting i is slots pending p own rest ih =>
    refine Program.alike_bind (settleItem_alike work p) ?_
    rintro ⟨_, _⟩ ⟨p', result⟩ ⟨rfl, index, rfl⟩
    have own' := index.trans own
    cases result with
    | error f => exact .done (.failed f (.waiting p' own' rest))
    | ok result =>
      refine Program.alike_bind ih ?_
      rintro _ _ (⟨f, splits⟩ | ⟨splits, told⟩)
      · exact .done (.failed f (.waiting p' own' splits))
      · exact .done (.passed (.waiting p' own' splits) (told.waiting (p', result) own'))

theorem attempt_alike (splits : Splits slotForm outcomes is slots pending) :
    (Settlement.attempt slots).Alike (Left outcomes is) (attempt pending) := by
  refine Program.alike_after _ ?_
  rintro (f | work)
  · exact .done (.failed f splits)
  · refine Program.alike_bind (apply_alike work splits) ?_
    rintro _ _ (⟨f, splits⟩ | ⟨splits, told⟩)
    · exact Program.alike_after _ fun _ => .done (.failed f splits)
    · refine Program.alike_after _ ?_
      rintro (f | _)
      · exact .done (.failed f splits)
      · exact .done (.passed splits told)

theorem conclude_alike {items : List Item} {told : List (Pending ms × ItemResult)}
    (distinct : is.Nodup) (splits : Splits itemForm outcomes is items told) :
    (Settlement.conclude items).Alike (Enters outcomes is) (conclude told outcomes) := by
  induction is generalizing items told outcomes with
  | nil =>
    cases splits
    exact .done (enters_nil outcomes)
  | cons i is ih =>
    obtain ⟨apart, others⟩ := List.nodup_cons.mp distinct
    cases splits with
    | @refused _ _ items _ reason entered rest =>
      exact Program.alike_then (ih others rest) fun _ _ enters => .done (enters_kept apart entered enters)
    | @waiting _ _ items told y own rest =>
      obtain ⟨p, result⟩ := y
      subst own
      have later (o : Outcome) := ih others (splits_enter rest apart o)
      cases result with
      | settled r n =>
        exact Program.alike_then (later _) fun _ _ enters => .done (enters_entered apart enters)
      | campaignMissing =>
        refine Program.alike_after _ fun _ => ?_
        exact Program.alike_then (later _) fun _ _ enters => .done (enters_entered apart enters)

theorem givenUp_enters (reason : Reason) (distinct : is.Nodup) (splits : Splits slotForm outcomes is slots pending) :
    Enters outcomes is (slots.map (Slot.givenUp reason))
      (pending.foldl (fun outcomes p => outcomes.enter p.index (.deadLettered reason)) outcomes) := by
  induction is generalizing slots pending outcomes with
  | nil =>
    cases splits
    exact enters_nil outcomes
  | cons i is ih =>
    obtain ⟨apart, others⟩ := List.nodup_cons.mp distinct
    cases splits with
    | refused reason entered rest => exact enters_kept apart entered (ih others rest)
    | waiting p own rest =>
      subst own
      exact enters_entered apart (ih others (splits_enter rest apart _))

theorem splits_messages (splits : Splits slotForm outcomes is slots pending) :
    (slots.filterMap Slot.ticket?).map Ticket.message = pending.map Pending.message := by
  induction splits with
  | nil => rfl
  | refused reason entered rest ih => exact ih
  | waiting p own rest ih => exact congrArg (p.message :: ·) ih

theorem giveUp_alike (distinct : is.Nodup) (splits : Splits slotForm outcomes is slots pending) (reason : Reason)
    (f : Fault) :
    (Settlement.giveUp slots reason f).Alike (Enters outcomes is) (giveUp pending reason f outcomes) := by
  unfold Settlement.giveUp giveUp
  rw [splits_messages splits]
  exact Program.alike_after _ fun _ => .done (givenUp_enters reason distinct splits)

theorem settle_alike (b : Backoff) (n : Nat) (distinct : is.Nodup)
    (splits : Splits slotForm outcomes is slots pending) :
    (settleFrom b n slots).Alike
      (fun report found => Enters outcomes is report.outcomes found.1 ∧ found.2 = report.attempts)
      (settle b n pending outcomes) := by
  induction n, slots using settleFrom.induct b generalizing pending with
  | case1 n slots ih =>
    unfold settleFrom settle
    refine Program.alike_bind (attempt_alike splits) ?_
    rintro _ _ (⟨f, splits⟩ | ⟨splits, told⟩)
    · dsimp only
      split
      · next more =>
        refine Program.alike_after _ fun _ => ?_
        refine Program.alike_after _ fun _ => ?_
        exact ih _ f more splits
      · exact Program.alike_bind (giveUp_alike distinct splits _ f) fun _ _ enters => .done ⟨enters, rfl⟩
    · exact Program.alike_bind (conclude_alike distinct told) fun _ _ enters => .done ⟨enters, rfl⟩

theorem attempts_alike (b : Backoff) (distinct : is.Nodup) (splits : Splits slotForm outcomes is slots pending) :
    (if (slots.filterMap Slot.ticket?).isEmpty then .done ⟨slots.map (Slot.givenUp .storeRejected), 0⟩
      else Settlement.settle b b.retries 1 b.initial slots : Program Report).Alike
      (fun report found => Enters outcomes is report.outcomes found.1 ∧ found.2 = report.attempts)
      (if pending.isEmpty then .done (outcomes, 0) else settle b 1 pending outcomes) := by
  have count := congrArg List.isEmpty (splits_messages splits)
  rw [List.isEmpty_map, List.isEmpty_map] at count
  rw [count, settle_counted]
  cases pending with
  | nil => exact .done ⟨givenUp_enters _ distinct splits, rfl⟩
  | cons p pending => exact settle_alike b 1 distinct splits

end Attempts

theorem enters_all {outcomes outcomes' : Outcomes ms} {os : List Outcome}
    (enters : Enters outcomes (List.finRange ms.length) os outcomes') : outcomes'.toList = os.map some := by
  rw [← enters.each]
  refine List.ext_getElem (by simp) ?_
  intro i _ _
  rw [List.getElem_map, List.getElem_finRange]
  rfl

theorem processBatch_parts (fallback : Outcome) (b : Backoff) (ms : List Message) :
    processBatch fallback b ms = (screen (List.finRange ms.length) (.replicate ms.length none)).bind fun found =>
      Program.bind (if found.1.isEmpty then .done (found.2, 0) else settle b 1 found.1 found.2) fun settled =>
        (closing (settled.1.toList.map (·.getD fallback))).bind fun _ =>
          .done ⟨settled.1.toList.map (·.getD fallback), settled.2⟩ := by
  simp only [processBatch, closing, Program.bind_eq, Program.pure_eq, Program.bind_assoc]
  refine congrArg _ (funext fun found => ?_)
  split <;> rfl

/-- Whatever is agreed on for indices without an outcome, there are none. -/
theorem processBatch_indexed (fallback : Outcome) (b : Backoff) (ms : List Message) :
    processBatch fallback b ms = Settlement.processBatch b ms := by
  have distinct := List.nodup_finRange ms.length
  have messages : (List.finRange ms.length).map ms.get = ms := List.map_get_finRange ms
  have screened := screen_alike _ distinct (.replicate ms.length none)
  rw [messages] at screened
  refine (Program.alike_eq ?_).symm
  rw [processBatch_eq, processBatch_parts]
  refine Program.alike_bind screened ?_
  rintro slots ⟨pending, outcomes⟩ ⟨splits, -⟩
  refine Program.alike_bind (attempts_alike b distinct splits) ?_
  rintro ⟨os, n⟩ ⟨outcomes', _⟩ ⟨enters, rfl⟩
  have found : outcomes'.toList.map (·.getD fallback) = os := by
    rw [enters_all enters, List.map_map]
    exact List.map_id os
  rw [found]
  exact Program.alike_refl _

end Indexed

end CampaignSettlement.Settlement
