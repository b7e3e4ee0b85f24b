import CampaignSettlement.Proofs.Aggregation.Accounts
import CampaignSettlement.Proofs.Ledger.Queries
import CampaignSettlement.Service.Analytics

/-!
Aggregation on demand, from the request to its answer. The form of the body, the window and the reach of the job are
judged in this order. What is turned down leaves no trace; anything else is one run of the job.
-/
namespace CampaignSettlement

open Calendar (Date Instant)
open Ledger (Books Window)

theorem Ledger.Window.eq_of_bounds {w w' : Window} (start : w.start = w'.start) (stop : w.stop = w'.stop) : w = w' := by
  cases w
  cases w'
  cases start
  cases stop
  rfl

namespace Aggregation.Request

structure Alone (r : Request) (d : Date) : Prop where
  date : r.date = some d
  start : r.start = none
  stop : r.stop = none

structure Spans (r : Request) (a b : Instant) : Prop where
  date : r.date = none
  start : r.start = some a
  stop : r.stop = some b

/-- The window that a body asks for: a whole day, or from a start up to an end. -/
inductive Asks (r : Request) (w : Window) : Prop
  | day {d e : Date} (alone : r.Alone d) (next : d.next? = some e) (start : w.start = .startOf d)
      (stop : w.stop = .startOf e)
  | span (spans : r.Spans w.start w.stop)

inductive Windowless (r : Request) : Prop
  | unclear (date : ∀ d, ¬r.Alone d) (span : ∀ a b, ¬r.Spans a b)
  | inverted {a b : Instant} (spans : r.Spans a b) (late : b ≤ a)
  | last {d : Date} (alone : r.Alone d) (final : ∀ e : Date, ¬d < e)

variable {r : Request} {w : Window}

theorem window_alone {d : Date} (alone : r.Alone d) : r.window = (Window.ofDate d).mapError .window := by
  rw [window, alone.date, alone.start, alone.stop]

theorem window_spans {a b : Instant} (spans : r.Spans a b) : r.window = (Window.between a b).mapError .window := by
  rw [window, spans.date, spans.start, spans.stop]

theorem window_unclear (date : ∀ d, ¬r.Alone d) (span : ∀ a b, ¬r.Spans a b) : r.window = .error .noSingleForm := by
  unfold window
  split
  · next alone start stop => exact absurd ⟨alone, start, stop⟩ (date _)
  · next none start stop => exact absurd ⟨none, start, stop⟩ (span _ _)
  · rfl

theorem window_asks (asks : r.Asks w) : r.window = .ok w := by
  cases asks with
  | @day d e alone next start stop =>
    have whole : Window.ofDate d = .ok w := by
      unfold Window.ofDate
      split
      · next e' next' =>
        have same : e' = e := Option.some.inj (next'.symm.trans next)
        exact congrArg Except.ok (Window.eq_of_bounds start.symm ((congrArg Instant.startOf same).trans stop.symm))
      · next none =>
        rw [next] at none
        cases none
    rw [window_alone alone, whole]
    rfl
  | span spans =>
    rw [window_spans spans, Window.between, dif_pos w.start_lt]
    rfl

theorem window_windowless (h : r.Windowless) : ∃ f, r.window = .error f := by
  cases h with
  | unclear date span => exact ⟨_, window_unclear date span⟩
  | @inverted a b spans late =>
    have not_before : ¬a < b := Int.not_lt.mpr late
    rw [window_spans spans, Window.between, dif_neg not_before]
    exact ⟨_, rfl⟩
  | last alone final =>
    cases day : Window.ofDate _ with
    | error f => exact ⟨_, (window_alone alone).trans (congrArg (Except.mapError RequestFault.window) day)⟩
    | ok w => exact absurd (Window.ofDate_early day) (final _)

theorem asks_or_windowless (r : Request) : (∃ w, r.Asks w) ∨ r.Windowless := by
  by_cases date : ∃ d, r.Alone d
  · obtain ⟨d, alone⟩ := date
    by_cases early : d < Date.greatest
    · obtain ⟨w, whole⟩ := Window.ofDate_some early
      obtain ⟨start, e, next, stop⟩ := Window.ofDate_bounds whole
      exact .inl ⟨w, .day alone next start stop⟩
    · refine .inr (.last alone ?_)
      intro e later
      exact early (Int.lt_of_lt_of_le later e.inRange.2)
  · by_cases span : ∃ a b, r.Spans a b
    · obtain ⟨a, b, spans⟩ := span
      by_cases before : a < b
      · exact .inl ⟨⟨a, b, before⟩, .span spans⟩
      · exact .inr (.inverted spans (Int.not_lt.mp before))
    · exact .inr (.unclear (fun d alone => date ⟨d, alone⟩) (fun a b spans => span ⟨a, b, spans⟩))

end Aggregation.Request

namespace Aggregation.Job

variable {j : Job} {now : Instant} {b : Books} {only : Option Int} {w : Window} {trigger : Trigger}

/-- A run that fails has written nothing. In one statement it fails as a whole; campaign by campaign it fails while it
looks for the campaigns, and goes on when one of them fails. -/
theorem stats_failed {f : Fault} (failed : (j.aggregate Books.totals now b only w trigger).2.2 = .error f) :
    (j.aggregate Books.totals now b only w trigger).2.1.stats = b.stats := by
  rw [aggregate_run] at failed ⊢
  cases mode : j.mode with
  | setBased =>
    simp only [mode, runIn, runSetBased] at failed ⊢
    cases written : (Books.totals.write b w only).2 with
    | error f => exact Books.stats_failed written
    | ok n =>
      rw [written] at failed
      cases failed
  | perCampaign =>
    simp only [mode, runIn, runPerCampaign] at failed ⊢
    cases only with
    | some id => cases failed
    | none =>
      have kept := b.stats_campaigns w
      dsimp only at failed ⊢
      generalize Books.totals.campaigns b w = found at failed kept ⊢
      obtain ⟨b', ids⟩ := found
      cases ids with
      | error f => exact kept
      | ok ids => cases failed

theorem aggregate_keeps (j : Job) (now : Instant) (b : Books) (only : Option Int) (w : Window) (trigger : Trigger) :
    ∃ record, (j.aggregate Books.totals now b only w trigger).1 = j.keep record := by
  rw [aggregate_run]
  exact ⟨_, rfl⟩

theorem aggregate_fault {f : Fault} (failed : (j.aggregate Books.totals now b only w trigger).2.2 = .error f) :
    ∃ g, f = .store g := by
  rw [aggregate_run] at failed
  dsimp only at failed
  cases result : (runIn j.mode Books.totals b only w).2 with
  | error g =>
    rw [result] at failed
    cases failed
    exact ⟨g, rfl⟩
  | ok tally =>
    rw [result] at failed
    cases failed

end Aggregation.Job

namespace Service.Analytics

open Http (Problem Response)
open Aggregation (Bygone InReach Job Report RunRecord)

structure Posts (q : Http.Request) (r : Aggregation.Request) : Prop where
  method : q.method = "POST"
  path : q.path = "/aggregations"
  body : Http.bodyValue Aggregation.Request.reader q = .ok r

/-- How a request is judged. -/
inductive Verdict
  | invalid
  | future
  | old
  | run
deriving DecidableEq

namespace Verdict

def code? : Verdict → Option String
  | invalid => some "invalid_window"
  | future => some "future_date"
  | old => some "date_too_old"
  | run => none

/-- What calls for it, for a job that goes back at most `maxPastDays` from `today`. -/
def Due (maxPastDays : Int) (today : Date) (r : Aggregation.Request) : Verdict → Prop
  | invalid => r.Windowless
  | future => ∃ w, r.Asks w ∧ today < w.date
  | old => ∃ w, r.Asks w ∧ w.date ≤ today ∧ Bygone maxPastDays w.date today
  | run => ∃ w, r.Asks w ∧ InReach maxPastDays w.date today

end Verdict

def Refused (code : String) (answer : Response) : Prop :=
  ∃ message, answer = (Problem.badRequest code message).response

/-- The answer that goes with a verdict. -/
def Told (answer : Response) (v : Verdict) : Prop :=
  match v.code? with
  | some code => Refused code answer
  | none => answer.status = 200 ∨ answer.status = 500

def failure (f : Ledger.Fault) : Response :=
  (⟨.internal, "aggregation_failed", none, some (Aggregation.Fault.store f).message⟩ : Problem).response

/-- One run of the job over the window, and the answer that tells how it went. -/
inductive Ran (now : Instant) (d : Desk) (only : Option Int) (w : Window) (d' : Desk) : Response → Prop
  | reported {report : Report}
      (run : d.service.job.aggregate Books.totals now d.books only w .onDemand =
        (d'.service.job, d'.books, .ok report)) : Ran now d only w d' (.json 200 report.json)
  | failed {f : Ledger.Fault}
      (run : d.service.job.aggregate Books.totals now d.books only w .onDemand =
        (d'.service.job, d'.books, .error (.store f))) : Ran now d only w d' (failure f)

def OneMore (j j' : Job) : Prop :=
  ∃ run : RunRecord, j'.history = j.history.push run ∧
    ∀ labels, j'.metrics.runs.of labels = j.metrics.runs.of labels + if labels = [run.outcome.label] then 1 else 0

/-- What becomes of a request with the body `r`. -/
structure Decided (now : Instant) (d : Desk) (r : Aggregation.Request) (d' : Desk) (answer : Response) : Prop where
  verdict : ∀ v, Told answer v ↔ v.Due d.service.job.maxPastDays now.date r
  ran : ∀ w, r.Asks w → InReach d.service.job.maxPastDays w.date now.date → Ran now d r.campaign w d' answer
  untouched : answer.status = 400 → d'.service.job = d.service.job ∧ d'.books = d.books
  counted : answer.status = 200 ∨ answer.status = 500 → OneMore d.service.job d'.service.job
  /-- In either mode a run that fails has written nothing. -/
  kept : answer.status = 500 → d'.books.stats = d.books.stats

theorem refused_status {code : String} {answer : Response} (refused : Refused code answer) : answer.status = 400 := by
  obtain ⟨message, rfl⟩ := refused
  rfl

theorem refused_code {code code' : String} {answer : Response} (refused : Refused code answer)
    (refused' : Refused code' answer) : code = code' := by
  obtain ⟨message, rfl⟩ := refused
  obtain ⟨message', same⟩ := refused'
  have bodies := congrArg Response.body same
  simp [Problem.response, Response.json, Problem.json, Problem.badRequest] at bodies
  exact bodies.1

theorem code_injective {v v' : Verdict} (same : v.code? = v'.code?) : v = v' := by
  cases v <;> cases v' <;> first | rfl | exact absurd same (by decide)

theorem told_unique {answer : Response} {v v' : Verdict} (told : Told answer v) (told' : Told answer v') : v = v' := by
  apply code_injective
  unfold Told at told told'
  cases code : v.code? with
  | some code =>
    rw [code] at told
    cases code' : v'.code? with
    | some code' =>
      rw [code'] at told'
      exact congrArg some (refused_code told told')
    | none =>
      rw [code'] at told'
      have status := refused_status told
      omega
  | none =>
    rw [code] at told
    cases code' : v'.code? with
    | some code' =>
      rw [code'] at told'
      have status := refused_status told'
      omega
    | none => rfl

theorem some_due (maxPastDays : Int) (today : Date) (r : Aggregation.Request) :
    ∃ v : Verdict, v.Due maxPastDays today r := by
  obtain ⟨w, asks⟩ | windowless := r.asks_or_windowless
  · obtain future | ⟨begun, bygone⟩ | reach := Aggregation.reach_cases maxPastDays w.date today
    · exact ⟨.future, w, asks, future⟩
    · exact ⟨.old, w, asks, begun, bygone⟩
    · exact ⟨.run, w, asks, reach⟩
  · exact ⟨.invalid, windowless⟩

variable {now : Instant} {d : Desk} {r : Aggregation.Request} {w : Window}

theorem aggregate_refused {v : Verdict} {code : String} (named : v.code? = some code)
    (due : v.Due d.service.job.maxPastDays now.date r) :
    ∃ message, aggregate now d r = (d, .error (.badRequest code message)) := by
  cases v with
  | invalid =>
    cases named
    obtain ⟨f, none⟩ := r.window_windowless due
    rw [aggregate, none]
    exact ⟨_, rfl⟩
  | future =>
    cases named
    obtain ⟨w, asks, future⟩ := due
    rw [aggregate, r.window_asks asks]
    simp only [Job.runOnDemand, Job.validate_future future]
    exact ⟨_, rfl⟩
  | old =>
    cases named
    obtain ⟨w, asks, begun, bygone⟩ := due
    rw [aggregate, r.window_asks asks]
    simp only [Job.runOnDemand, Job.validate_bygone begun bygone]
    exact ⟨_, rfl⟩
  | run => cases named

theorem aggregate_reached (asks : r.Asks w) (reach : InReach d.service.job.maxPastDays w.date now.date) :
    Ran now d r.campaign w (aggregate now d r).1 (respond (aggregate now d r).2) := by
  have reached : d.service.job.runOnDemand Books.totals now d.books r.campaign w now.date =
      d.service.job.aggregate Books.totals now d.books r.campaign w .onDemand := by
    rw [Job.runOnDemand, Job.validate_reached reach]
  unfold aggregate
  rw [r.window_asks asks]
  dsimp only
  rw [reached]
  generalize ran : d.service.job.aggregate Books.totals now d.books r.campaign w .onDemand = run
  obtain ⟨job, books, result⟩ := run
  cases result with
  | ok report => exact .reported ran
  | error f =>
    obtain ⟨g, rfl⟩ := Job.aggregate_fault (congrArg (·.2.2) ran)
    exact .failed ran

variable {d' : Desk} {answer : Response}

theorem ran_status (ran : Ran now d r.campaign w d' answer) : answer.status = 200 ∨ answer.status = 500 := by
  cases ran with
  | reported _ => exact .inl rfl
  | failed _ => exact .inr rfl

theorem oneMore_keep (j : Job) (run : RunRecord) : OneMore j (j.keep run) := by
  refine ⟨run, rfl, ?_⟩
  intro labels
  change (j.metrics.runs.add [run.outcome.label] 1).of labels = _
  rw [Metrics.Counts.of_add]
  split
  · rfl
  · exact (UInt64.add_zero _).symm

theorem ran_counted (ran : Ran now d r.campaign w d' answer) : OneMore d.service.job d'.service.job := by
  obtain ⟨record, kept⟩ := d.service.job.aggregate_keeps now d.books r.campaign w .onDemand
  have left : d'.service.job = d.service.job.keep record := by
    rw [← kept]
    cases ran with
    | reported run => rw [run]
    | failed run => rw [run]
  rw [left]
  exact oneMore_keep d.service.job record

theorem ran_kept (ran : Ran now d r.campaign w d' answer) (status : answer.status = 500) :
    d'.books.stats = d.books.stats := by
  cases ran with
  | reported _ => exact absurd status (by decide : 200 ≠ 500)
  | failed run =>
    have kept := Job.stats_failed (congrArg (·.2.2) run)
    rw [run] at kept
    exact kept

theorem told_due {v : Verdict} (due : v.Due d.service.job.maxPastDays now.date r) :
    Told (respond (aggregate now d r).2) v := by
  unfold Told
  cases named : v.code? with
  | some code =>
    obtain ⟨message, refused⟩ := aggregate_refused (d := d) named due
    exact ⟨message, by rw [refused]; rfl⟩
  | none =>
    cases v with
    | run =>
      obtain ⟨w, asks, reach⟩ := due
      exact ran_status (aggregate_reached asks reach)
    | _ => cases named

/-- There is one verdict, and it is the one that is due. -/
theorem told_iff (v : Verdict) :
    Told (respond (aggregate now d r).2) v ↔ v.Due d.service.job.maxPastDays now.date r := by
  constructor
  · intro told
    obtain ⟨v', due⟩ := some_due d.service.job.maxPastDays now.date r
    rw [told_unique told (told_due due)]
    exact due
  · exact told_due

theorem aggregate_decided (now : Instant) (d : Desk) (r : Aggregation.Request) :
    Decided now d r (aggregate now d r).1 (respond (aggregate now d r).2) := by
  constructor
  case verdict => exact told_iff
  case ran =>
    intro w asks reach
    exact aggregate_reached asks reach
  case untouched =>
    intro status
    obtain ⟨v, due⟩ := some_due d.service.job.maxPastDays now.date r
    cases named : v.code? with
    | some code =>
      obtain ⟨message, refused⟩ := aggregate_refused (d := d) named due
      rw [refused]
      exact ⟨rfl, rfl⟩
    | none =>
      have told := told_due (d := d) due
      unfold Told at told
      rw [named] at told
      omega
  case counted =>
    intro status
    obtain ⟨w, asks, reach⟩ := (told_iff .run).mp status
    exact ran_counted (aggregate_reached asks reach)
  case kept =>
    intro status
    obtain ⟨w, asks, reach⟩ := (told_iff .run).mp (.inr status)
    exact ran_kept (aggregate_reached asks reach) status

theorem resolve_posts {q : Http.Request} (posts : Posts q r) :
    Http.Route.resolve routes q = .ok (.aggregate, "") := by
  have segments : q.segments = ["aggregations"] := by
    rw [Http.Request.segments, posts.path]
    decide +kernel
  have route : (routes.findSome? fun route => (Http.Route.matchPath route.pieces ["aggregations"]).map (route, ·)) =
      some (⟨[.literal "aggregations"], .post, .aggregate⟩, none) := rfl
  rw [Http.Route.resolve, segments, route]
  simp [Http.Verb.takes, posts.method]

theorem decided_watched (decided : Decided now d r d' answer) (watch : Http.ErrorWatch) :
    Decided now d r { d' with service := { d'.service with watch } } answer := by
  obtain ⟨verdict, ran, untouched, counted, kept⟩ := decided
  refine ⟨verdict, ?_, untouched, counted, kept⟩
  intro w asks reach
  cases ran w asks reach with
  | reported run => exact .reported run
  | failed run => exact .failed run

theorem serve_handled {q : Http.Request} {answer : Response} (handled : handle now d q = (d', .ok answer)) :
    serve now d q =
      let answer := answer.answering q
      ({ d' with service := { d'.service with watch := d'.service.watch.observe answer } }, .ok answer) := by
  unfold serve
  rw [handled]

theorem handle_posts {q : Http.Request} (posts : Posts q r) :
    handle now d q = ((aggregate now d r).1, .ok (respond (aggregate now d r).2)) := by
  simp only [handle, resolve_posts posts, withValue, posts.body]

theorem on_demand_decided {q : Http.Request} (posts : Posts q r) (now : Instant) (d : Desk) :
    ∃ answer, (serve now d q).2 = .ok answer ∧ Decided now d r (serve now d q).1 answer := by
  have not_head : ¬q.method = "HEAD" := by
    rw [posts.method]
    decide
  have answering (answer : Response) : answer.answering q = answer := if_neg not_head
  rw [serve_handled (handle_posts posts), answering]
  exact ⟨_, rfl, decided_watched (aggregate_decided now d r) _⟩

def dayBefore : Http.Request :=
  ⟨"POST", "/aggregations", [("content-type", Text.Utf8.encode "application/json")],
    Text.Utf8.encode "\x7b\"date\": \"2026-10-18\"\x7d"⟩

def october18 : Date := ⟨20744, by decide⟩

def october19 : Date := ⟨20745, by decide⟩

def newDesk : Desk := ⟨{ job := .ofSettings .setBased 30 3, sampleLimit := 100 }, {}⟩

theorem on_demand_decided_day_before :
    Posts dayBefore ⟨some october18, none, none, none⟩ ∧
    ∃ answer, (serve (.startOf october19) newDesk dayBefore).2 = .ok answer ∧ answer.status = 200 ∧
      Decided (.startOf october19) newDesk ⟨some october18, none, none, none⟩
        (serve (.startOf october19) newDesk dayBefore).1 answer := by
  have body : (Http.bodyValue Aggregation.Request.reader dayBefore).toOption = some ⟨some october18, none, none, none⟩ := by
    decide +kernel
  have posts : Posts dayBefore ⟨some october18, none, none, none⟩ := by
    refine ⟨rfl, by decide +kernel, ?_⟩
    cases read : Http.bodyValue Aggregation.Request.reader dayBefore with
    | error e =>
      rw [read] at body
      cases body
    | ok r =>
      rw [read] at body
      exact congrArg Except.ok (Option.some.inj body)
  obtain ⟨answer, served, decided⟩ := on_demand_decided posts (.startOf october19) newDesk
  have status : (serve (.startOf october19) newDesk dayBefore).2.toOption.map (·.status) = some 200 := by decide +kernel
  rw [served] at status
  exact ⟨posts, answer, served, Option.some.inj status, decided⟩

end Service.Analytics

end CampaignSettlement
