import PromScrape.Implementation.Targets

set_option autoImplicit false

/-! # Self-monitoring (`src/telemetry.rs`, `self_monitor_loop` in `src/main.rs`)

The registry of the agent's own metrics, the series that are made of it for remote write, and the text
for `GET /metrics`. What procfs says about the process is a parameter. -/

namespace PromScrape

/-- A metric value backed by one atomic `u64`; additions and subtractions wrap around. -/
structure Telemetry.Value where
  bits : UInt64 := 0
deriving DecidableEq, Repr

namespace Telemetry.Value

def add (v : Telemetry.Value) (delta : UInt64) : Telemetry.Value := ⟨v.bits + delta⟩

def sub (v : Telemetry.Value) (delta : UInt64) : Telemetry.Value := ⟨v.bits - delta⟩

def get (v : Telemetry.Value) : UInt64 := v.bits

end Telemetry.Value

inductive Kind where
  | counter
  | gauge
deriving DecidableEq, Repr

structure Metrics where
  scrapesTotal : Telemetry.Value := {}
  scrapeFailuresTotal : Telemetry.Value := {}
  samplesScrapedTotal : Telemetry.Value := {}
  stalenessMarkersTotal : Telemetry.Value := {}
  trackedSeries : Telemetry.Value := {}
  remoteWriteBatchesTotal : Telemetry.Value := {}
  remoteWriteSentBytesTotal : Telemetry.Value := {}
  remoteWriteRetriesTotal : Telemetry.Value := {}
  remoteWriteFailedBatchesTotal : Telemetry.Value := {}
  remoteWriteDroppedSeriesTotal : Telemetry.Value := {}
  startTimeSeconds : Telemetry.Value := {}
deriving DecidableEq, Repr

structure ProcessStats where
  cpuSeconds : F64
  residentBytes : F64
deriving DecidableEq, Repr

/-- All metrics as (name, help, kind, value); those of the process only where procfs gave them. -/
def Metrics.snapshot (m : Metrics) (process : Option ProcessStats) :
    List (String × String × Kind × F64) :=
  let values : List (String × String × Kind × F64) := [
    ("prometheus_scrape_rs_scrapes_total", "Scrapes attempted, including failures.",
      .counter, toF64 m.scrapesTotal.get),
    ("prometheus_scrape_rs_scrape_failures_total",
      "Scrapes that failed (fetch, parse or sample_limit).",
      .counter, toF64 m.scrapeFailuresTotal.get),
    ("prometheus_scrape_rs_samples_scraped_total", "Samples parsed from scrape bodies.",
      .counter, toF64 m.samplesScrapedTotal.get),
    ("prometheus_scrape_rs_staleness_markers_total", "Staleness markers emitted.",
      .counter, toF64 m.stalenessMarkersTotal.get),
    ("prometheus_scrape_rs_tracked_series", "Series currently tracked for staleness.",
      .gauge, toF64 m.trackedSeries.get),
    ("prometheus_scrape_rs_remote_write_batches_total",
      "Remote-write batches accepted by an endpoint.",
      .counter, toF64 m.remoteWriteBatchesTotal.get),
    ("prometheus_scrape_rs_remote_write_sent_bytes_total",
      "Compressed bytes accepted by remote-write endpoints.",
      .counter, toF64 m.remoteWriteSentBytesTotal.get),
    ("prometheus_scrape_rs_remote_write_retries_total",
      "Remote-write attempts that will be retried.",
      .counter, toF64 m.remoteWriteRetriesTotal.get),
    ("prometheus_scrape_rs_remote_write_failed_batches_total",
      "Batches dropped after an unrecoverable response.",
      .counter, toF64 m.remoteWriteFailedBatchesTotal.get),
    ("prometheus_scrape_rs_remote_write_dropped_series_total",
      "Series dropped because an endpoint queue was full.",
      .counter, toF64 m.remoteWriteDroppedSeriesTotal.get),
    ("process_start_time_seconds", "Unix time the process started.",
      .gauge, toF64 m.startTimeSeconds.get)]
  match process with
  | none => values
  | some process =>
      values ++ [
        ("process_cpu_seconds_total", "Total user and system CPU time.",
          .counter, process.cpuSeconds),
        ("process_resident_memory_bytes", "Resident set size.", .gauge, process.residentBytes)]

def Kind.text : Kind → String
  | .counter => "counter"
  | .gauge => "gauge"

def cargoPkgVersion : String := "0.1.0"

/-- What `render` writes for one metric. -/
def metricLines (metric : String × String × Kind × F64) : String :=
  "# HELP " ++ metric.1 ++ " " ++ metric.2.1 ++ "\n" ++
    "# TYPE " ++ metric.1 ++ " " ++ metric.2.2.1.text ++ "\n" ++
    metric.1 ++ " " ++ FloatText.toText metric.2.2.2 ++ "\n"

/-- The text exposition body for `GET /metrics`. -/
def Metrics.render (m : Metrics) (process : Option ProcessStats) : String :=
  String.join ((m.snapshot process).map metricLines) ++
    "# HELP prometheus_scrape_rs_build_info Build information.\n" ++
    "# TYPE prometheus_scrape_rs_build_info gauge\n" ++
    "prometheus_scrape_rs_build_info\x7bversion=\"" ++ cargoPkgVersion ++ "\"\x7d 1\n"

/-- The order of label lists: the first difference decides, name before value. -/
def labelsLe : List Label → List Label → Bool
  | [], _ => true
  | _ :: _, [] => false
  | a :: as, b :: bs =>
      if a = b then labelsLe as bs else a.name < b.name || (a.name == b.name && a.value < b.value)

/-- The closure of `Metrics::series` that makes one series. -/
def metricSeries (extraLabels : List Label) (timestamp : Int64) (name : String)
    (labels : List Label) (value : F64) : TimeSeries where
  labels := sortLabels (labels ++ ⟨metricNameLabel, name⟩ :: extraLabels)
  sample := { value := value, timestamp := timestamp }
  identityHash := 0
  histogram := none

/-- Remote-write series carrying `extraLabels`. -/
def Metrics.series (m : Metrics) (process : Option ProcessStats) (extraLabels : List Label)
    (timestamp : Int64) : List TimeSeries :=
  ((m.snapshot process).map (fun metric =>
      metricSeries extraLabels timestamp metric.1 [] metric.2.2.2) ++
    [metricSeries extraLabels timestamp "prometheus_scrape_rs_build_info"
      [⟨"version", cargoPkgVersion⟩] F64.one]).insertionSort
        (fun a b => labelsLe a.labels b.labels = true)

/-- The labels that `self_monitor_loop` gives its series, with the `HOSTNAME` of the environment. -/
def selfMonitorLabels (global : GlobalConfig) (hostname : Option String) : List Label :=
  global.externalLabels.entries.foldl (fun labels entry => addIfAbsent labels entry.1 entry.2)
    [⟨"job", "prometheus-scrape-rs"⟩, ⟨"instance", hostname.getD "localhost"⟩]

end PromScrape
