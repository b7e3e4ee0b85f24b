import CampaignSettlement.Config.Environment
import CampaignSettlement.Settlement.Backoff
import CampaignSettlement.Settlement.Reason

/-!
Settings of the settlement consumer.
-/
namespace CampaignSettlement.Config

open Number (Binary single nat16 nat32 nat64)
open Settlement (Backoff Duration)

structure Consumer where
  databaseUrl : String
  bootstrap : String
  topic : String
  deadLetterTopic : String
  group : String
  batchSize : Nat
  channelCapacity : Nat
  maxAttempts : Nat
  backoffInitial : Duration
  backoffMax : Duration
  backoffFactor : Binary
  maxPollMillis : Nat
  sessionMillis : Nat
  deadLetterMillis : Nat
  resumeSequence : Bool
  runMigrations : Bool
  host : String
  portNumber : Nat
deriving DecidableEq, Repr

namespace Consumer

/-- A factor below one would shrink the delays, so it is not taken. -/
def factor (env : Environment) : Binary :=
  let two := single.ofNat 2
  match (env.text? "SETTLEMENT_BACKOFF_FACTOR").bind fun s => Number.binary? single (Text.trim s) with
  | some x => if (single.ofNat 1).le x then x else two
  | none => two

def ofEnvironment (env : Environment) : Except String Consumer := do
  let databaseUrl ← env.required "DATABASE_URL"
  let topic := env.textOr "PARTICIPATION_TOPIC" participationTopic
  let initial := max (env.trimmedOr "SETTLEMENT_BACKOFF_INITIAL_MS" nat64 100) 1
  return {
    databaseUrl
    bootstrap := env.textOr "KAFKA_BOOTSTRAP" "localhost:9092"
    topic
    deadLetterTopic := env.textOr "DEAD_LETTER_TOPIC" (Settlement.deadLetterTopic topic)
    group := env.textOr "CONSUMER_GROUP" "campaign-participation-group"
    batchSize := min (max (env.trimmedOr "SETTLEMENT_BATCH_SIZE" nat64 1) 1) 500
    channelCapacity := max (env.trimmedOr "SETTLEMENT_CHANNEL_CAPACITY" nat64 1024) 16
    maxAttempts := max (env.trimmedOr "SETTLEMENT_MAX_ATTEMPTS" nat32 3) 1
    backoffInitial := .ofMillis initial
    backoffMax := .ofMillis (max (env.trimmedOr "SETTLEMENT_BACKOFF_MAX_MS" nat64 5000) initial)
    backoffFactor := factor env
    maxPollMillis := env.trimmedOr "KAFKA_MAX_POLL_INTERVAL_MS" nat64 600000
    sessionMillis := env.trimmedOr "KAFKA_SESSION_TIMEOUT_MS" nat64 45000
    deadLetterMillis := env.trimmedOr "DEAD_LETTER_TIMEOUT_MS" nat64 30000
    resumeSequence := env.switch "SEQUENCE_RESUME_FROM_STORE" true
    runMigrations := env.switch "RUN_MIGRATIONS" true
    host := env.textOr "HOST" "0.0.0.0"
    portNumber := env.trimmedOr "PORT" nat16 8090 }

def backoff (c : Consumer) : Backoff :=
  ⟨c.maxAttempts, c.backoffInitial, c.backoffMax, c.backoffFactor, true⟩

end Consumer

end CampaignSettlement.Config
