import CampaignSettlement.Metrics.Exposition

/-!
What each service counts.
-/
namespace CampaignSettlement.Metrics

open Number (Binary double)

abbrev HttpErrors := Counts

def httpErrorFamily (e : HttpErrors) : Family :=
  ⟨"http_errors_total", "Count of HTTP error responses emitted (status >= 400)",
    .counter ["code", "service", "status"] e⟩

def HttpErrors.count (e : HttpErrors) (service code status : String) (n : UInt64) : HttpErrors :=
  Counts.add e [code, service, status] n

def thousandths (ns : List Nat) : Histogram :=
  .ofBounds (ns.map fun n => double.ofDecimal false n (-3))

def counterFamily (name help : String) (n : UInt64) : Family := ⟨name, help, .counter [] [([], n)]⟩

def labelledFamily (name help label : String) (c : Counts) : Family := ⟨name, help, .counter [label] c⟩

structure Settlement where
  messages : Counts := []
  deadLetters : Counts := []
  publishFailures : UInt64 := 0
  retries : UInt64 := 0
  ackFailures : UInt64 := 0
  batchSeconds : Histogram := thousandths [1, 5, 10, 50, 100, 250, 500, 1000, 5000]
  sequence : Int := 0
deriving DecidableEq, Repr

namespace Settlement

def families (m : Settlement) : List Family :=
  [labelledFamily "settlement_messages_total" "Messages settled, by outcome" "outcome" m.messages,
    labelledFamily "settlement_dead_letters_total" "Messages routed to the dead-letter topic, by reason"
      "reason" m.deadLetters,
    counterFamily "settlement_dead_letter_publish_failures_total"
      "Dead-letter envelopes that could not be published" m.publishFailures,
    counterFamily "settlement_retries_total" "Batch transactions retried after a transient store error" m.retries,
    counterFamily "settlement_ack_failures_total" "Offset commits that failed" m.ackFailures,
    ⟨"settlement_batch_duration_seconds", "Wall time to settle one batch, retries included",
      .histogram m.batchSeconds⟩,
    ⟨"settlement_global_sequence", "Last global sequence assigned by this process", .gauge m.sequence⟩]

def text (m : Settlement) : String := exposition m.families

end Settlement

structure Aggregation where
  runs : Counts := []
  rows : UInt64 := 0
  runSeconds : Histogram := thousandths [10, 50, 100, 500, 1000, 5000, 30000, 120000]
deriving DecidableEq, Repr

def Aggregation.families (m : Aggregation) : List Family :=
  [labelledFamily "aggregation_runs_total" "Aggregation runs, by outcome" "outcome" m.runs,
    counterFamily "aggregation_rows_updated_total" "Daily stats rows written by aggregation" m.rows,
    ⟨"aggregation_run_duration_seconds", "Duration of one aggregation run", .histogram m.runSeconds⟩]

structure Admission where
  requests : Counts := []
deriving DecidableEq, Repr

def Admission.families (m : Admission) : List Family :=
  [labelledFamily "participation_requests_total" "Participation requests, by outcome" "outcome" m.requests]

def withHttpErrors (families : List Family) (e : Option HttpErrors) : List Family :=
  families ++ (e.map httpErrorFamily).toList

end CampaignSettlement.Metrics
