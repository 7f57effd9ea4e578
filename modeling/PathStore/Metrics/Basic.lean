import PathStore.Binary64.Basic
import PathStore.Search.Outcome

/-!
# Metrics

Counters of what a database has done since it was opened, the number of its documents, and for each
strategy how many searches used it and how long they took.
-/

namespace PathStore

structure Duration where
  nanoseconds : Nat
deriving Repr, DecidableEq

namespace Duration

def nanosecondsPerSecond : Nat := 1_000_000_000

/-- The duration in seconds.  The whole seconds, the rest and their sum are each rounded. -/
def seconds (duration : Duration) : Binary64 :=
  let whole := duration.nanoseconds / nanosecondsPerSecond
  let rest := duration.nanoseconds % nanosecondsPerSecond
  (Binary64.ofNat whole).add ((Binary64.ofNat rest).div (Binary64.ofNat nanosecondsPerSecond))

end Duration

/-- Durations in seconds, counted by the bounds that they do not exceed. -/
structure Histogram where
  /-- For each bound, how many durations do not exceed it. -/
  within : List Nat
  count : Nat
  sum : Binary64
deriving Repr, DecidableEq

namespace Histogram

def bounds : List Nat := [1, 5, 10, 25, 50, 100, 250, 500, 1000, 5000]

def boundSeconds : List Binary64 := bounds.map fun bound ↦ Binary64.round false bound 1000

def empty : Histogram :=
  ⟨bounds.map fun _ ↦ 0, 0, Binary64.zero false⟩

def observe (duration : Duration) (histogram : Histogram) : Histogram where
  within := List.zipWith (fun bound n ↦ if bound.lt duration.seconds then n else n + 1)
    boundSeconds histogram.within
  count := histogram.count + 1
  sum := histogram.sum.add duration.seconds

end Histogram

structure StrategyMetrics where
  searches : Nat
  latency : Histogram
deriving Repr, DecidableEq

namespace StrategyMetrics

def empty : StrategyMetrics :=
  ⟨0, .empty⟩

def record (duration : Duration) (metrics : StrategyMetrics) : StrategyMetrics :=
  ⟨metrics.searches + 1, metrics.latency.observe duration⟩

end StrategyMetrics

structure Metrics where
  /-- Documents added. -/
  added : Nat
  /-- Documents added whose index entries are incomplete. -/
  indexFailures : Nat
  /-- Searches that failed. -/
  searchErrors : Nat
  /-- Documents stored. -/
  documents : Nat
  byIndex : StrategyMetrics
  byFullScan : StrategyMetrics
deriving Repr, DecidableEq

/-- The value that a gauge shows for a count.  A gauge has 53 significant bits, so greater counts
are rounded. -/
def gaugeValue (count : Nat) : Nat :=
  if count < Nat.pow 2 53 then count
  else
    let x := Binary64.ofNat count
    x.significand * Nat.pow 2 x.exponent.toNat

namespace Metrics

def empty : Metrics :=
  ⟨0, 0, 0, 0, .empty, .empty⟩

def ofStrategy (metrics : Metrics) : Strategy → StrategyMetrics
  | .index => metrics.byIndex
  | .fullScan => metrics.byFullScan

def recordAdded (metrics : Metrics) : Metrics :=
  { metrics with added := metrics.added + 1, documents := gaugeValue (metrics.documents + 1) }

def recordIndexFailure (metrics : Metrics) : Metrics :=
  { metrics with indexFailures := metrics.indexFailures + 1 }

def recordSearchError (metrics : Metrics) : Metrics :=
  { metrics with searchErrors := metrics.searchErrors + 1 }

def recordSearch (strategy : Strategy) (duration : Duration) (metrics : Metrics) : Metrics :=
  match strategy with
  | .index => { metrics with byIndex := metrics.byIndex.record duration }
  | .fullScan => { metrics with byFullScan := metrics.byFullScan.record duration }

def setDocuments (count : Nat) (metrics : Metrics) : Metrics :=
  { metrics with documents := gaugeValue count }

end Metrics

end PathStore
