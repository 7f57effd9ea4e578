import PathStore.Binary64.Layout
import PathStore.Metrics.Basic

/-!
# The text of the metrics

Metrics are published as families in the order of their names.  A family has two lines that describe
it and one line for each of its samples; a sample has a name, labels and a value.  A family without
a sample has no line at all, and a strategy that was never used has no sample.
-/

namespace PathStore

structure Sample where
  name : String
  labels : List (String × String)
  value : String

def Sample.line (sample : Sample) : String :=
  let labels := sample.labels.map fun (label, value) ↦ s!"{label}=\"{value}\""
  let labels := if labels.isEmpty then "" else "\x7b" ++ ",".intercalate labels ++ "\x7d"
  s!"{sample.name}{labels} {sample.value}"

structure MetricFamily where
  name : String
  description : String
  kind : String
  samples : List Sample

namespace MetricFamily

def lines (family : MetricFamily) : List String :=
  if family.samples.isEmpty then []
  else
    s!"# HELP {family.name} {family.description}" :: s!"# TYPE {family.name} {family.kind}" ::
      family.samples.map Sample.line

/-- A family with one sample that has no labels. -/
def single (name description kind value : String) : MetricFamily :=
  ⟨name, description, kind, [⟨name, [], value⟩]⟩

end MetricFamily

def secondsText (seconds : Binary64) : String :=
  String.ofList (DecimalLayout.plain.text seconds)

def gaugeText (count : Nat) : String :=
  secondsText (Binary64.ofNat count)

/-- The samples of a histogram of a strategy. -/
def Histogram.samples (name : String) (labels : List (String × String)) (histogram : Histogram) :
    List Sample :=
  let bucket (bound : String) (count : Nat) : Sample :=
    ⟨name ++ "_bucket", labels ++ [("le", bound)], s!"{count}"⟩
  List.zipWith (fun bound count ↦ bucket (secondsText bound) count) Histogram.boundSeconds
      histogram.within ++
    [bucket "+Inf" histogram.count,
      ⟨name ++ "_sum", labels, secondsText histogram.sum⟩,
      ⟨name ++ "_count", labels, s!"{histogram.count}"⟩]

namespace Metrics

/-- The strategies that have been used, in the order of their names. -/
def usedStrategies (metrics : Metrics) : List Strategy :=
  [.fullScan, .index].filter fun strategy ↦ (metrics.ofStrategy strategy).searches ≠ 0

def families (metrics : Metrics) : List MetricFamily :=
  let latency := "docdb_search_latency_seconds"
  let searches := "docdb_searches_total"
  let labels (strategy : Strategy) := [("strategy", strategy.name)]
  [.single "docdb_documents" "Number of documents in the primary collection" "gauge"
      (gaugeText metrics.documents),
    .single "docdb_documents_added_total" "Total number of documents added" "counter"
      s!"{metrics.added}",
    .single "docdb_index_failures_total" "Documents stored without a complete index update"
      "counter" s!"{metrics.indexFailures}",
    .single "docdb_search_errors_total" "Total number of failed searches" "counter"
      s!"{metrics.searchErrors}",
    ⟨latency, "Search latency by strategy", "histogram",
      metrics.usedStrategies.flatMap fun strategy ↦
        (metrics.ofStrategy strategy).latency.samples latency (labels strategy)⟩,
    ⟨searches, "Total number of searches by strategy", "counter",
      metrics.usedStrategies.map fun strategy ↦
        ⟨searches, labels strategy, s!"{(metrics.ofStrategy strategy).searches}"⟩⟩]

def lines (metrics : Metrics) : List String :=
  metrics.families.flatMap MetricFamily.lines

def text (metrics : Metrics) : String :=
  String.join (metrics.lines.map (· ++ "\n"))

end Metrics

end PathStore
