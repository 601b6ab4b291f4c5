import Kortex.Library.Dict
import Kortex.Library.OrderStatistic
import Kortex.Library.Text
import Mathlib.Data.List.Sort

/-
This file models the latencies in the report of an evaluation.
-/

namespace Kortex

/-- These are the fields of a `QueryOutcome` that the latencies read. -/
structure QueryOutcome where
  latencyS : ℚ
  error : Option Str := none

namespace EvalMetrics

/-- These are the latencies of the successful queries, sorted. -/
def samples (outcomes : List QueryOutcome) : List ℚ :=
  ((outcomes.filter fun o => o.error.isNone).map QueryOutcome.latencyS).insertionSort (· ≤ ·)

/-- This is the index that `pct` computes for a number of samples. -/
def indexOf (n : Nat) (p : ℚ) : Nat :=
  (min ((n : Int) - 1) (max 0 (roundHalfEven (p / 100 * n) - 1))).toNat

/-- This is `pct`; the index is always one of a sample. -/
def pct (samples : List ℚ) (p : ℚ) : ℚ := samples.getD (indexOf samples.length p) 0

/-- This is `statistics.fmean`, where nothing is rounded. -/
def fmean (samples : List ℚ) : ℚ := samples.sum / samples.length

/-- This is `latency_percentiles`. -/
def latencyPercentiles (outcomes : List QueryOutcome) : Dict Str ℚ :=
  match samples outcomes with
  | [] => []
  | first :: rest =>
      [("p50", pct (first :: rest) 50), ("p95", pct (first :: rest) 95),
        ("p99", pct (first :: rest) 99), ("mean", fmean (first :: rest)),
        ("max", (first :: rest).getLast (List.cons_ne_nil first rest))]

end EvalMetrics
end Kortex
