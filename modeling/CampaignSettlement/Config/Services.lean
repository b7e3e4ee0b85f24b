import CampaignSettlement.Aggregation.Run
import CampaignSettlement.Calendar.Reading
import CampaignSettlement.Config.Environment

/-!
Settings of the admission service and of the analytics service.
-/
namespace CampaignSettlement.Config

open Aggregation (Mode)
open Calendar (TimeOfDay)
open Number (int64 nat16 nat64)

structure Admission where
  bootstrap : String
  topic : String
  /-- Zero lets a send go on without a deadline. -/
  messageMillis : Nat
  host : String
  portNumber : Nat
deriving DecidableEq, Repr

def Admission.ofEnvironment (env : Environment) : Except String Admission := do
  let name := "PRODUCER_MESSAGE_TIMEOUT_MS"
  let messageMillis ← match env.text? name with
    | none => .ok 0
    | some raw =>
      match Number.integer nat64 (Text.trim raw) with
      | .ok i => .ok i.toNat
      | .error f => .error (name ++ " must be an integer, got " ++ raw ++ ": " ++ f.message)
  return {
    bootstrap := env.textOr "KAFKA_BOOTSTRAP" "localhost:9092"
    topic := env.textOr "PARTICIPATION_TOPIC" participationTopic
    messageMillis
    host := env.textOr "HOST" "0.0.0.0"
    portNumber := (env.integerOr "PORT" nat16 8081).toNat }

structure Analytics where
  databaseUrl : String
  mode : Mode
  dailyAt : TimeOfDay
  scheduled : Bool
  maxPastDays : Int
  historySize : Nat
  sampleLimit : Nat
  host : String
  portNumber : Nat
deriving DecidableEq, Repr

namespace Analytics

def maxPastDaysLimit : Int := 36500

def twoInTheMorning : TimeOfDay :=
  { TimeOfDay.midnight with second := 7200, second_lt := by decide, leap := by decide }

def ofEnvironment (env : Environment) : Except String Analytics := do
  let databaseUrl ← env.required "DATABASE_URL"
  let mode ← match env.text? "AGGREGATION_MODE" with
    | none => .ok .setBased
    | some raw => Mode.ofSetting raw
  let dailyAt ← match env.text? "AGGREGATION_DAILY_AT" with
    | none => .ok twoInTheMorning
    | some raw =>
      match TimeOfDay.readHourMinute (Text.trim raw) with
      | .ok t => .ok t
      | .error f => .error ("AGGREGATION_DAILY_AT must be HH:MM, got " ++ raw ++ ": " ++ f.message)
  return {
    databaseUrl
    mode
    dailyAt
    scheduled := (env.text? "AGGREGATION_SCHEDULE_ENABLED").all fun s => s != "false" && s != "0"
    maxPastDays := min (max (env.integerOr "AGGREGATION_MAX_PAST_DAYS" int64 365) 0) maxPastDaysLimit
    historySize := min (max (env.integerOr "AGGREGATION_HISTORY_SIZE" nat64 100).toNat 1) 1000
    sampleLimit := min (env.integerOr "ORDER_ANALYSIS_SAMPLE_LIMIT" nat64 20).toNat 1000
    host := env.textOr "HOST" "0.0.0.0"
    portNumber := (env.integerOr "PORT" nat16 8086).toNat }

end Analytics

end CampaignSettlement.Config
