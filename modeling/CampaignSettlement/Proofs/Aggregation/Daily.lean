import Mathlib.Data.List.Chain
import Mathlib.Tactic.NormNum
import CampaignSettlement.Aggregation.Schedule
import CampaignSettlement.Proofs.Aggregation.Days
import CampaignSettlement.Proofs.Calendar.RoundTrip

/-!
The daily schedule. The next run is the least later instant at its time of day, so a loop that reads the clock once
between two runs comes to each day once: the windows that it aggregates follow on each other, and every instant that
they span, leap seconds included, is in one of them.
-/
namespace CampaignSettlement

open Calendar (Date Instant TimeOfDay)

namespace Calendar.Instant

theorem addDays?_one {d : Date} {time : TimeOfDay} (plain : time.nano < 1000000000) :
    addDays? ⟨d, time⟩ 1 = d.next?.map (⟨·, time⟩) := by
  have second := time.second_lt
  have nano : (time.nano : Int) < 1000000000 := by omega
  have seconds : Int.tdiv (1 * 86400 * 1000000000) 1000000000 = 86400 := by decide
  have nothing : Int.tmod (1 * 86400 * 1000000000) 1000000000 = 0 := by decide
  have day : d.day + ((time.second : Int) + 86400 + ((time.nano : Int) + 0) / 1000000000) / 86400 = d.day + 1 := by
    omega
  have same : (((time.second : Int) + 86400 + ((time.nano : Int) + 0) / 1000000000) % 86400).toNat = time.second := by
    omega
  have rest : (((time.nano : Int) + 0) % 1000000000).toNat = time.nano := by omega
  unfold addDays? addNanos? normal?
  simp only [if_pos nano, seconds, nothing, day, same, rest]
  rw [time.of?_self rfl rfl, Date.next?, Date.add?]
  cases Date.ofDay? (d.day + 1) <;> rfl

theorem le_antisymm {t u : Instant} (up : t ≤ u) (down : u ≤ t) : t = u := by
  obtain ⟨d, ⟨second, nano, second_lt, nano_lt, leap⟩⟩ := t
  obtain ⟨d', ⟨second', nano', second_lt', nano_lt', leap'⟩⟩ := u
  change (d.day * 86400 + second) * 2000000000 + nano ≤ (d'.day * 86400 + second') * 2000000000 + nano' at up
  change (d'.day * 86400 + second') * 2000000000 + nano' ≤ (d.day * 86400 + second) * 2000000000 + nano at down
  obtain rfl : d = d' := Ledger.date_eq (by omega)
  obtain rfl : second = second' := by omega
  obtain rfl : nano = nano' := by omega
  rfl

end Calendar.Instant

namespace Aggregation

open Ledger (Window)

/-- The next run after `now`. -/
structure Upcoming (now : Instant) (runAt : TimeOfDay) (next : Instant) : Prop where
  later : now < next
  time : next.time = runAt
  least : ∀ t, now < t → t.time = runAt → next ≤ t
  soon : next.since now ≤ 86400 * 1000000000

variable {runAt : TimeOfDay}

theorem le_of_day {t u : Instant} (time : t.time = u.time) (day : t.date.day ≤ u.date.day) : t ≤ u := by
  change t.rank ≤ u.rank
  simp only [Instant.rank, time]
  omega

theorem day_le_of_lt {t u : Instant} (before : t < u) : t.date.day ≤ u.date.day := by
  have second := t.time.second_lt
  have second' := u.time.second_lt
  have nano' := u.time.nano_lt
  change t.rank < u.rank at before
  simp only [Instant.rank] at before
  omega

theorem upcoming_today {now : Instant} (before : now < ⟨now.date, runAt⟩) (plain : runAt.nano < 1000000000) :
    Upcoming now runAt ⟨now.date, runAt⟩ := by
  constructor
  · exact before
  · rfl
  · intro t later time
    exact le_of_day time.symm (day_le_of_lt (t := now) later)
  · have second := now.time.second_lt
    have second' := runAt.second_lt
    change now.rank < Instant.rank ⟨now.date, runAt⟩ at before
    simp only [Instant.rank] at before
    simp only [Instant.since]
    split <;> split <;> omega

theorem upcoming_tomorrow {now : Instant} {e : Date} (past : ¬now < ⟨now.date, runAt⟩) (plain : runAt.nano < 1000000000)
    (next : now.date.next? = some e) : Upcoming now runAt ⟨e, runAt⟩ := by
  have follows := Window.next_day next
  have second := now.time.second_lt
  have nano := now.time.nano_lt
  change ¬now.rank < Instant.rank ⟨now.date, runAt⟩ at past
  simp only [Instant.rank] at past
  constructor
  · change now.rank < Instant.rank ⟨e, runAt⟩
    simp only [Instant.rank]
    omega
  · rfl
  · intro t later time
    refine le_of_day time.symm ?_
    change now.rank < t.rank at later
    simp only [Instant.rank, time] at later
    change e.day ≤ t.date.day
    omega
  · simp only [Instant.since]
    split <;> split <;> omega

theorem nextRun_upcoming (plain : runAt.nano < 1000000000) {now : Instant} (early : now.date < Date.greatest) :
    ∃ next, nextRun now runAt = .ok next ∧ Upcoming now runAt next := by
  obtain ⟨w, day⟩ := Window.ofDate_some early
  obtain ⟨-, e, next, -⟩ := Window.ofDate_bounds day
  unfold nextRun
  by_cases before : now < ⟨now.date, runAt⟩
  · exact ⟨_, if_pos before, upcoming_today before plain⟩
  · refine ⟨⟨e, runAt⟩, ?_, upcoming_tomorrow before plain next⟩
    simp only [if_neg before, Instant.addDays?_one plain, next]
    rfl

/-- The clock is read again at the run that was waited for or less than a day after it. -/
def Prompt (runAt : TimeOfDay) (now later : Instant) : Prop :=
  ∃ run stop, nextRun now runAt = .ok run ∧ run.addDays? 1 = some stop ∧ run ≤ later ∧ later < stop

theorem nextRun_prompt (plain : runAt.nano < 1000000000) {now later next : Instant} (prompt : Prompt runAt now later)
    (ran : nextRun now runAt = .ok next) (early : now.date < Date.greatest) (early' : later.date < Date.greatest) :
    ∃ e, next.date.next? = some e ∧ nextRun later runAt = .ok ⟨e, runAt⟩ := by
  obtain ⟨run, stop, same, day, reached, less⟩ := prompt
  obtain rfl : next = run := Except.ok.inj (ran.symm.trans same)
  obtain ⟨_, found, upcoming⟩ := nextRun_upcoming plain early
  obtain rfl := Except.ok.inj (ran.symm.trans found)
  obtain ⟨after, runs, upcoming'⟩ := nextRun_upcoming plain early'
  obtain ⟨d, time⟩ := next
  obtain rfl : time = runAt := upcoming.time
  rw [Instant.addDays?_one plain] at day
  obtain ⟨e, follows, rfl⟩ := Option.map_eq_some_iff.mp day
  refine ⟨e, follows, ?_⟩
  have soonest : after ≤ ⟨e, time⟩ := upcoming'.least _ less rfl
  have past : (⟨d, time⟩ : Instant) < after := lt_of_le_of_lt (show Instant.rank _ ≤ _ from reached) upcoming'.later
  have latest : (⟨e, time⟩ : Instant) ≤ after := by
    refine le_of_day upcoming'.time.symm ?_
    change e.day ≤ after.date.day
    rw [Window.next_day follows]
    change Instant.rank ⟨d, time⟩ < after.rank at past
    simp only [Instant.rank, upcoming'.time] at past
    omega
  rw [runs, Instant.le_antisymm soonest latest]

/-- Whole days one after another, from `d` up to and without `f`. -/
inductive Days : Date → Date → List Window → Prop
  | none (d : Date) : Days d d []
  | day {d e f : Date} {w : Window} {ws : List Window} (first : Window.ofDate d = .ok w) (next : d.next? = some e)
      (rest : Days e f ws) : Days d f (w :: ws)

namespace Days

variable {d f : Date} {ws : List Window}

theorem le (h : Days d f ws) : d.day ≤ f.day := by
  induction h with
  | none => omega
  | day first next rest ih =>
    have follows := Window.next_day next
    omega

theorem mem (h : Days d f ws) {w : Window} (member : w ∈ ws) : Window.ofDate w.date = .ok w ∧ d.day ≤ w.date.day := by
  induction h with
  | none => cases member
  | day first next rest ih =>
    have follows := Window.next_day next
    have date := Window.ofDate_date first
    rcases List.mem_cons.mp member with rfl | later
    · rw [date]
      exact ⟨first, by omega⟩
    · obtain ⟨whole, above⟩ := ih later
      exact ⟨whole, by omega⟩

theorem head (h : Days d f ws) {w : Window} (first : ws.head? = some w) : w.date = d ∧ w.start = .startOf d := by
  cases h with
  | none => cases first
  | day whole next rest =>
    obtain rfl := Option.some.inj first
    exact ⟨Window.ofDate_date whole, (Window.ofDate_bounds whole).1⟩

theorem last (h : Days d f ws) {w : Window} (final : ws.getLast? = some w) : w.stop = .startOf f := by
  induction h with
  | none => cases final
  | @day d e f v ws whole next rest ih =>
    cases rest with
    | none =>
      obtain rfl : v = w := Option.some.inj final
      obtain ⟨-, e', next', stop⟩ := Window.ofDate_bounds whole
      obtain rfl : e = e' := Option.some.inj (next.symm.trans next')
      exact stop
    | day whole' next' rest' =>
      rw [List.getLast?_cons_cons] at final
      exact ih final

theorem joined (h : Days d f ws) : ws.IsChain fun w v => w.stop = v.start ∧ w.date.next? = some v.date := by
  induction h with
  | none => exact .nil
  | @day d e f w ws whole next rest ih =>
    obtain ⟨-, e', next', stop⟩ := Window.ofDate_bounds whole
    obtain rfl : e = e' := Option.some.inj (next.symm.trans next')
    refine List.isChain_cons.mpr ⟨?_, ih⟩
    intro v first
    obtain ⟨date, start⟩ := rest.head first
    exact ⟨by rw [stop, start], by rw [Window.ofDate_date whole, date, next]⟩

theorem distinct (h : Days d f ws) : (ws.map Window.date).Nodup := by
  induction h with
  | none => exact .nil
  | day whole next rest ih =>
    have follows := Window.next_day next
    refine List.nodup_cons.mpr ⟨?_, ih⟩
    intro again
    obtain ⟨v, member, same⟩ := List.mem_map.mp again
    obtain ⟨-, above⟩ := rest.mem member
    rw [same, Window.ofDate_date whole] at above
    omega

theorem count_holds (h : Days d f ws) (t : Instant) :
    ws.countP (·.holds t) = if d.day ≤ t.date.day ∧ t.date.day < f.day then 1 else 0 := by
  induction h with
  | none => rw [if_neg (by omega), List.countP_nil]
  | @day d e f w ws whole next rest ih =>
    have follows := Window.next_day next
    have further := rest.le
    have held := Window.holds_ofDate whole t
    rw [List.countP_cons, ih]
    by_cases here : t.date = d
    · rw [if_pos (held.mpr here), here, if_neg (by omega), if_pos (by omega)]
    · have apart : t.date.day ≠ d.day := fun same => here (Ledger.date_eq same)
      rw [if_neg (mt held.mp here), Nat.add_zero]
      exact if_congr (by omega) rfl rfl

end Days

theorem next_of_previous {d e : Date} (before : e.previous? = some d) : d.next? = some e := by
  have within := e.inRange
  simp only [Date.previous?, Date.add?, Date.ofDay?] at before
  split at before
  · injection before with same
    have back : d.day + 1 = e.day := by
      rw [← same]
      change e.day + -1 + 1 = e.day
      omega
    simp only [Date.next?, Date.add?, Date.ofDay?, back, dif_pos within]
  · cases before

theorem previous_of_next {d e : Date} (next : d.next? = some e) : e.previous? = some d := by
  have within := d.inRange
  have back : e.day + -1 = d.day := by
    have follows := Window.next_day next
    omega
  simp only [Date.previous?, Date.add?, Date.ofDay?, back, dif_pos within]

theorem window_of_run {next : Instant} {d : Date} (day : aggregatedDate next = some d) :
    ∃ w, Window.ofDate d = .ok w ∧ d.next? = some next.date := by
  have follows := next_of_previous day
  have after := Window.next_day follows
  have within := next.date.inRange.2
  obtain ⟨w, whole⟩ := Window.ofDate_some (d := d) (show d.day < Calendar.maxDay by omega)
  exact ⟨w, whole, follows⟩

theorem daily_days (plain : runAt.nano < 1000000000) {readings : List Instant} {now next : Instant} {d : Date}
    (early : ∀ t ∈ now :: readings, t.date < Date.greatest) (prompt : (now :: readings).IsChain (Prompt runAt))
    (ran : nextRun now runAt = .ok next) (day : aggregatedDate next = some d) :
    ∃ f ws, Days d f ws ∧ ws.length = readings.length + 1 ∧
      ∀ {τ : Type} (run : Date → τ → τ) (s : τ),
        daily run runAt (now :: readings) s = .ok (ws.foldl (fun s w => run w.date s) s) := by
  induction readings generalizing now next d with
  | nil =>
    obtain ⟨w, whole, follows⟩ := window_of_run day
    refine ⟨next.date, [w], .day whole follows (.none _), rfl, ?_⟩
    intro τ run s
    simp only [daily, ran, day, bind, Except.bind, List.foldl_cons, List.foldl_nil, Window.ofDate_date whole]
  | cons later readings ih =>
    obtain ⟨w, whole, follows⟩ := window_of_run day
    obtain ⟨soon, prompt⟩ := List.isChain_cons_cons.mp prompt
    obtain ⟨e, tomorrow, runs⟩ :=
      nextRun_prompt plain soon ran (early now (by simp)) (early later (by simp))
    have earlier : ∀ t ∈ later :: readings, t.date < Date.greatest := fun t member => early t (by simp [member])
    obtain ⟨f, ws, days, length, loop⟩ := ih earlier prompt runs (previous_of_next tomorrow)
    refine ⟨f, w :: ws, .day whole follows days, by rw [List.length_cons, length, List.length_cons], ?_⟩
    intro τ run s
    have first : daily run runAt (now :: later :: readings) s = daily run runAt (later :: readings) (run d s) := by
      rw [daily]
      simp only [ran, day, bind, Except.bind]
    rw [first, loop, List.foldl_cons, Window.ofDate_date whole]

theorem daily_none {now next : Instant} {readings : List Instant} (ran : nextRun now runAt = .ok next)
    (day : aggregatedDate next = none) {τ : Type} (run : Date → τ → τ) (s : τ) :
    daily run runAt (now :: readings) s = daily run runAt readings s := by
  rw [daily]
  simp only [ran, day, bind, Except.bind]

/-- Whole days that follow on each other. -/
structure Covers (ws : List Window) : Prop where
  whole : ∀ w ∈ ws, Window.ofDate w.date = .ok w
  joined : ws.IsChain fun w v => w.stop = v.start ∧ w.date.next? = some v.date
  distinct : (ws.map Window.date).Nodup
  /-- Between the first start and the last end, every instant is in exactly one of them. -/
  once : ∀ first last t, ws.head? = some first → ws.getLast? = some last → first.start ≤ t → t < last.stop →
    ws.countP (·.holds t) = 1

theorem Days.covers {d f : Date} {ws : List Window} (h : Days d f ws) : Covers ws := by
  constructor
  · intro w member
    exact (h.mem member).1
  · exact h.joined
  · exact h.distinct
  · intro first last t first_of last_of begun before
    have start := (h.head first_of).2
    have stop := h.last last_of
    have second := t.time.second_lt
    have nano := t.time.nano_lt
    change first.start.rank ≤ t.rank at begun
    change t.rank < last.stop.rank at before
    simp only [start, stop, Instant.rank, Instant.startOf, TimeOfDay.midnight] at begun before
    rw [h.count_holds t, if_pos (by omega)]

/-- What a loop that reads the clock at these times aggregates. -/
structure Aggregates (runAt : TimeOfDay) (readings : List Instant) (ws : List Window) : Prop where
  runs : ∀ {τ : Type} (run : Date → τ → τ) (s : τ),
    daily run runAt readings s = .ok (ws.foldl (fun s w => run w.date s) s)
  all : ∀ now next d, readings.head? = some now → nextRun now runAt = .ok next → aggregatedDate next = some d →
    ws.length = readings.length ∧ ws.head?.map Window.date = some d

theorem aggregates_days (plain : runAt.nano < 1000000000) {readings : List Instant}
    (early : ∀ t ∈ readings, t.date < Date.greatest) (prompt : readings.IsChain (Prompt runAt)) :
    ∃ d f ws, Days d f ws ∧ Aggregates runAt readings ws := by
  cases readings with
  | nil => exact ⟨_, _, [], .none Date.least, fun _ _ => rfl, by intro _ _ _ first; cases first⟩
  | cons now readings =>
    obtain ⟨next, ran, -⟩ := nextRun_upcoming plain (early now (by simp))
    cases day : aggregatedDate next with
    | some d =>
      obtain ⟨f, ws, days, length, loop⟩ := daily_days plain early prompt ran day
      refine ⟨d, f, ws, days, loop, ?_⟩
      intro now' next' d' first ran' day'
      obtain rfl : now = now' := Option.some.inj first
      obtain rfl : next = next' := Except.ok.inj (ran.symm.trans ran')
      obtain rfl : d = d' := Option.some.inj (day.symm.trans day')
      refine ⟨length, ?_⟩
      cases days with
      | none => cases length
      | day whole _ _ => exact congrArg some (Window.ofDate_date whole)
    | none =>
      have vacant {ws : List Window} (now' next' : Instant) (d : Date) (first : (now :: readings).head? = some now')
          (ran' : nextRun now' runAt = .ok next') (day' : aggregatedDate next' = some d) :
          ws.length = (now :: readings).length ∧ ws.head?.map Window.date = some d := by
        obtain rfl : now = now' := Option.some.inj first
        obtain rfl : next = next' := Except.ok.inj (ran.symm.trans ran')
        rw [day] at day'
        cases day'
      cases readings with
      | nil => exact ⟨_, _, [], .none Date.least, fun run s => daily_none ran day run s, vacant⟩
      | cons later readings =>
        obtain ⟨soon, prompt⟩ := List.isChain_cons_cons.mp prompt
        have earlier : ∀ t ∈ later :: readings, t.date < Date.greatest := fun t member => early t (by simp [member])
        obtain ⟨e, tomorrow, runs⟩ := nextRun_prompt plain soon ran (early now (by simp)) (earlier later (by simp))
        obtain ⟨f, ws, days, -, loop⟩ := daily_days plain earlier prompt runs (previous_of_next tomorrow)
        exact ⟨_, f, ws, days, fun run s => (daily_none ran day run s).trans (loop run s), vacant⟩

/-- At a time of day that is no leap second, and as long as the last day that there is has not come. -/
theorem every_day_aggregated (runAt : TimeOfDay) (plain : runAt.nano < 1000000000) :
    (∀ now, now.date < Date.greatest → ∃ next, nextRun now runAt = .ok next ∧ Upcoming now runAt next) ∧
      ∀ readings, (∀ now ∈ readings, now.date < Date.greatest) → readings.IsChain (Prompt runAt) →
        ∃ ws, Covers ws ∧ Aggregates runAt readings ws ∧
          ∀ w ∈ ws, ∀ {σ : Type} (t : Ledger.Totals σ) (now : Instant) (j : Job) (s : σ),
            j.runForDate t now s w.date = j.aggregate t now s none w .scheduled := by
  constructor
  · intro now early
    exact nextRun_upcoming plain early
  · intro readings early prompt
    obtain ⟨d, f, ws, days, aggregates⟩ := aggregates_days plain early prompt
    refine ⟨ws, days.covers, aggregates, ?_⟩
    intro w member σ t now j s
    rw [Job.runForDate, (days.mem member).1]

def newYearsEve : Date := ⟨17166, by decide⟩

/-- The last reading but one is the run that was waited for, and the last is in the leap second that ends the year. -/
def yearsEnd : List Instant :=
  [⟨⟨17164, by decide⟩, Instant.greatest.time⟩, .startOf ⟨17165, by decide⟩,
    ⟨newYearsEve, { Instant.greatest.time with nano := 1500000000, nano_lt := by decide, leap := by decide }⟩]

theorem every_day_aggregated_leap :
    TimeOfDay.midnight.nano < 1000000000 ∧ (∀ now ∈ yearsEnd, now.date < Date.greatest) ∧
      yearsEnd.IsChain (Prompt .midnight) ∧
      daily (fun d ds => ds ++ [d]) .midnight yearsEnd [] =
        .ok [⟨17164, by decide⟩, ⟨17165, by decide⟩, newYearsEve] ∧
      ∃ ws, Covers ws ∧ Aggregates .midnight yearsEnd ws ∧ ws.length = 3 := by
  have early : ∀ now ∈ yearsEnd, now.date < Date.greatest := by decide
  have prompt : yearsEnd.IsChain (Prompt .midnight) := by
    refine List.isChain_cons_cons.mpr ⟨?_, List.isChain_cons_cons.mpr ⟨?_, .singleton _⟩⟩
    · exact ⟨.startOf ⟨17165, by decide⟩, .startOf newYearsEve, by decide +kernel, by decide +kernel, by decide, by decide⟩
    · exact ⟨.startOf newYearsEve, .startOf ⟨17167, by decide⟩, by decide +kernel, by decide +kernel, by decide, by decide⟩
  obtain ⟨ws, covers, aggregates, -⟩ := (every_day_aggregated .midnight (by decide)).2 yearsEnd early prompt
  have first : aggregatedDate (.startOf ⟨17165, by decide⟩) = some ⟨17164, by decide⟩ := by decide +kernel
  exact ⟨by decide, early, prompt, by decide +kernel, ws, covers, aggregates,
    (aggregates.all _ _ _ rfl (by decide +kernel) first).1⟩

end Aggregation

end CampaignSettlement
