import CampaignSettlement.Ledger.Table
import CampaignSettlement.Number.Shortest

/-!
Counters, gauges and histograms, and the text in which they are scraped: families by name, members of a
family by label values, labels by name.
-/
namespace CampaignSettlement.Metrics

open Ledger (Table)
open Number (Binary double)

/-- Counts by label values, the values in the order of the label names. A count is a word of 64 bits and
goes on from zero when it is full. -/
abbrev Counts := Table (List String) UInt64

def Counts.add (c : Counts) (labels : List String) (n : UInt64) : Counts :=
  c.put labels ((c.get? labels).getD 0 + n)

def Counts.of (c : Counts) (labels : List String) : UInt64 := (c.get? labels).getD 0

structure Histogram where
  /-- Upper bounds with the observations that fall below each, or on it, and above the bound before. -/
  buckets : List (Binary × Nat)
  above : Nat
  sum : Binary
deriving DecidableEq, Repr

namespace Histogram

def ofBounds (bounds : List Binary) : Histogram := ⟨bounds.map (·, 0), 0, double.ofNat 0⟩

def place (x : Binary) : List (Binary × Nat) → Nat → List (Binary × Nat) × Nat
  | [], above => ([], above + 1)
  | (bound, n) :: rest, above =>
    if x.le bound then ((bound, n + 1) :: rest, above)
    else
      let (rest, above) := place x rest above
      ((bound, n) :: rest, above)

def observe (h : Histogram) (x : Binary) : Histogram :=
  let (buckets, above) := place x h.buckets h.above
  ⟨buckets, above, .add double h.sum x⟩

def count (h : Histogram) : Nat := h.buckets.foldr (fun bucket n => bucket.2 + n) h.above

def cumulative : Nat → List (Binary × Nat) → List (Binary × Nat)
  | _, [] => []
  | n, (bound, k) :: rest => (bound, n + k) :: cumulative (n + k) rest

end Histogram

inductive Reading
  | counter (labels : List String) (counts : Counts)
  | gauge (value : Int)
  | histogram (h : Histogram)

structure Family where
  name : String
  help : String
  reading : Reading

def escapeLabel (s : String) : String :=
  String.ofList <| s.toList.flatMap fun c =>
    if c == '\\' then ['\\', '\\'] else if c == '"' then ['\\', '"'] else if c == '\n' then ['\\', 'n'] else [c]

def labelText (labels : List (String × String)) : String :=
  if labels.isEmpty then ""
  else
    let parts := labels.map fun (k, v) => k ++ "=\"" ++ escapeLabel v ++ "\""
    "\x7b" ++ String.intercalate "," parts ++ "\x7d"

def sampleLine (name : String) (labels : List (String × String)) (value : Binary) : String :=
  name ++ labelText labels ++ " " ++ value.plainText double ++ "\n"

namespace Family

def kindName (f : Family) : String :=
  match f.reading with
  | .counter .. => "counter"
  | .gauge _ => "gauge"
  | .histogram _ => "histogram"

def sampleLines (f : Family) : List String :=
  match f.reading with
  | .counter labels counts =>
    counts.map fun (values, n) => sampleLine f.name (labels.zip values) (double.ofNat n.toNat)
  | .gauge value => [sampleLine f.name [] (double.ofInt value)]
  | .histogram h =>
    let bucket (le : String) (n : Nat) := sampleLine (f.name ++ "_bucket") [("le", le)] (double.ofNat n)
    (Histogram.cumulative 0 h.buckets).map (fun (bound, n) => bucket (bound.plainText double) n) ++
      [bucket "+Inf" h.count, sampleLine (f.name ++ "_sum") [] h.sum,
        sampleLine (f.name ++ "_count") [] (double.ofNat h.count)]

def text (f : Family) : String :=
  let lines := f.sampleLines
  if lines.isEmpty then ""
  else
    "# HELP " ++ f.name ++ " " ++ f.help ++ "\n# TYPE " ++ f.name ++ " " ++ f.kindName ++ "\n" ++ String.join lines

end Family

def exposition (families : List Family) : String :=
  String.join ((families.mergeSort fun a b => decide (a.name ≤ b.name)).map Family.text)

end CampaignSettlement.Metrics
