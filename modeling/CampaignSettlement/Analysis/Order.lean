import CampaignSettlement.Analysis.Inversions
import CampaignSettlement.Ledger.Record
import CampaignSettlement.Ledger.Table
import CampaignSettlement.Number.Overflow

/-!
How far the order of settlement drifted from the order of arrival. Records arrive by the time they were
sent, then by partition, then by offset; they are settled by their sequence. A pair of records that is
settled against its arrival is an inversion. Inside a partition, offsets alone are the order of arrival.
-/
namespace CampaignSettlement.Analysis

open Json (Value)
open Ledger (Record Table)
open Number (Binary Overflow double nat64)

structure Arrival where
  user : Int
  partition : Int
  offset : Int
  sentAt : Int
  sequence : Int
deriving DecidableEq, Repr

namespace Arrival

def ofRecord? (r : Record) : Option Arrival := do
  return ⟨r.user, ← r.partition, ← r.offset, ← r.sentAt, ← r.sequence⟩

def before (a b : Arrival) : Bool :=
  decide (a.sentAt < b.sentAt) || (a.sentAt == b.sentAt &&
    (decide (a.partition < b.partition) || (a.partition == b.partition && decide (a.offset ≤ b.offset))))

def json (a : Arrival) : Value :=
  .obj [("userId", .int a.user), ("partition", .int a.partition), ("offset", .int a.offset),
    ("brokerTimestamp", .int a.sentAt), ("globalSequence", .int a.sequence)]

end Arrival

structure Violation where
  first : Arrival
  second : Arrival
deriving DecidableEq, Repr

def Violation.json (v : Violation) : Value :=
  .obj [("arrivedFirst", v.first.json), ("arrivedSecond", v.second.json)]

structure OrderAnalysis where
  total : Nat
  analyzed : Nat
  excluded : Nat
  inversions : Nat
  pairs : Nat
  accuracyPercent : Binary
  distribution : Table Int Nat
  mismatches : Table Int Nat
  violations : List Violation
deriving DecidableEq, Repr

/-- The records that qualify, in the order of arrival; ties stay as they were. -/
def arrivals (rs : List Record) : List Arrival := (rs.filterMap Arrival.ofRecord?).mergeSort Arrival.before

def byPartition (as : List Arrival) : Table Int (List Arrival) :=
  as.foldl (fun t a => t.put a.partition ((t.get? a.partition).getD [] ++ [a])) []

def descents : List Arrival → List Violation
  | a :: b :: rest =>
    if b.sequence < a.sequence then ⟨a, b⟩ :: descents (b :: rest) else descents (b :: rest)
  | _ => []

def sequences (as : List Arrival) : List Int := as.map Arrival.sequence

def toHundredths (x : Binary) : Binary :=
  let hundred := double.ofNat 100
  .div double ((Binary.mul double x hundred).roundHalfAway double) hundred

def analyze (rs : List Record) (sampleLimit : Nat) : OrderAnalysis :=
  let as := arrivals rs
  let groups := byPartition as
  let count := inversions (sequences as)
  { total := rs.length
    analyzed := as.length
    excluded := rs.length - as.length
    inversions := count
    pairs := pairs as.length
    accuracyPercent := toHundredths (accuracy count (pairs as.length))
    distribution := groups.map fun (p, own) => (p, own.length)
    mismatches := groups.map fun (p, own) =>
      (p, inversions (sequences (own.mergeSort fun a b => decide (a.offset ≤ b.offset))))
    violations := (descents as).take sampleLimit }

/-- `analyze`, where the counts and the product under the number of pairs have to be words of 64 bits. -/
def analyzeInRange (rs : List Record) (sampleLimit : Nat) : Except Overflow OrderAnalysis :=
  let a := analyze rs sampleLimit
  if !nat64.holds a.inversions then .error .addition
  else if !nat64.holds (a.analyzed * (a.analyzed - 1) : Nat) then .error .multiplication
  else .ok a

namespace OrderAnalysis

def members (a : OrderAnalysis) : List (String × Value) :=
  let byKey (t : Table Int Nat) : Value := .obj (t.map fun (p, n) => (toString p, .nat n))
  [("totalRecords", .nat a.total), ("analyzedRecords", .nat a.analyzed),
    ("excludedRecords", .nat a.excluded), ("inversionCount", .nat a.inversions),
    ("totalPairs", .nat a.pairs), ("orderAccuracyPercent", .real a.accuracyPercent),
    ("partitionCount", .nat a.distribution.length), ("partitionDistribution", byKey a.distribution),
    ("partitionMismatches", byKey a.mismatches), ("violationSamples", .list Violation.json a.violations)]

def json (a : OrderAnalysis) : Value := .obj a.members

end OrderAnalysis

end CampaignSettlement.Analysis
