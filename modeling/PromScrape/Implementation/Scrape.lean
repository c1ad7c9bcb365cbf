import PromScrape.Library.SortedSearch
import PromScrape.Implementation.Protobuf
import PromScrape.Implementation.Config

set_option autoImplicit false

/-! # Scraping a target (`src/scrape.rs`)

One round of a target's scrape loop: parse the fetched body, build the final label set of every
series, and turn the series that went away since the previous round into staleness markers. The HTTP
exchange is an input of the round; snappy is not the repository's. Telemetry and logging are left
out. -/

namespace PromScrape

open Utf8 (utf8Bytes ofUtf8Bytes?)
open Regex (Engine)
open SortedSearch (sortDedup binarySearch)

/-! ## Targets and bodies -/

/-- What scraping calls outside the repository. -/
structure ScrapeDeps where
  relabel : RelabelDeps
  prost : ProstDecoder
  /-- `compress_vec`, which refuses bodies that are too long. -/
  compress : List UInt8 → Option (List UInt8)
  decompress : List UInt8 → Option (List UInt8)

/-- A fully resolved scrape target. -/
structure Target (E : Engine) where
  url : String
  params : List (String × String)
  /-- Sorted, includes `job` and `instance`. -/
  labels : List Label
  interval : Duration := .fromSecs 60
  timeout : Duration := .fromSecs 10
  honorLabels : Bool
  honorTimestamps : Bool
  /-- `0` disables the limit. -/
  sampleLimit : UInt64
  /-- In bytes; `0` disables the limit. -/
  bodySizeLimit : UInt64 := defaultBodySizeLimit
  /-- The `Accept` header. -/
  accept : String := "text/plain;version=0.0.4;q=0.6,*/*;q=0.5"
  protobuf : ProtobufOptions
  trackStaleness : Bool
  metricRelabelConfigs : List (RelabelConfig E)
  externalLabels : List Label

/-- `hash_labels_into`. -/
def hashLabelsInto (hasher : FxHasher) (labels : List Label) : FxHasher :=
  labels.foldl (fun h l => (h.write (utf8Bytes l.name)).write (utf8Bytes l.value)) hasher

/-- Stable identity across discovery updates. -/
def Target.identity {E : Engine} (target : Target E) : UInt64 :=
  let hasher := FxHasher.default.write (utf8Bytes target.url)
  let hasher := target.params.foldl
    (fun h p => (h.write (utf8Bytes p.1)).write (utf8Bytes p.2)) hasher
  (hashLabelsInto hasher target.labels).finish

inductive BodyFormat where
  | text
  | protobuf
deriving DecidableEq, Repr

/-- A fetched scrape body and the format it is in. -/
structure ScrapeBody where
  bytes : List UInt8
  format : BodyFormat
deriving DecidableEq, Repr

/-- Why a scrape failed. -/
inductive ScrapeError where
  | fetch (message : String)
  | notUtf8 (body : List UInt8)
  | text (e : ParseError)
  | protobuf (message : String)
  | sampleLimit (scraped : Nat) (limit : UInt64)
deriving DecidableEq, Repr

/-- The message, given the `{:?}` forms of characters and strings and the text of a UTF-8 error. -/
def ScrapeError.message (debugChar : Char → String) (debugStr : String → String)
    (utf8Error : List UInt8 → String) : ScrapeError → String
  | .fetch message => message
  | .notUtf8 body => "scrape body is not valid UTF-8: " ++ utf8Error body
  | .text e =>
      "scrape body failed to parse: line " ++ toString e.line ++ ": " ++
        e.kind.message debugChar debugStr
  | .protobuf message => "protobuf scrape body failed to parse: " ++ message
  | .sampleLimit scraped limit =>
      "sample_limit exceeded (" ++ toString scraped ++ " > " ++ toString limit ++
        "); scrape discarded"

/-- What aborts the scrape loop. -/
inductive ScrapePanic where
  | relabel (fault : Fault)
  | parser
deriving DecidableEq, Repr

/-- Parse a scrape body with the parser for its format. -/
def parseBody (deps : ScrapeDeps) (target : Target deps.relabel.engine) (body : List UInt8)
    (format : BodyFormat) (defaultTimestampMs : Int64) :
    Except ScrapePanic (Except ScrapeError (List TimeSeries)) :=
  match format with
  | .text =>
      match ofUtf8Bytes? body with
      | none => .ok (.error (.notUtf8 body))
      | some text =>
          match parse text defaultTimestampMs target.honorTimestamps with
          | .ok series => .ok (.ok series)
          | .error (.error e) => .ok (.error (.text e))
          | .error .panic => .error .parser
  | .protobuf =>
      .ok ((parseProtobuf deps.prost body defaultTimestampMs target.protobuf).mapError .protobuf)

/-! ## Final label sets -/

def exportedLabelPrefix : String := "exported_"

def getLabel (labels : List Label) (name : String) : String := LabelSet.get labels name

def setLabel (labels : List Label) (name value : String) : List Label :=
  LabelSet.set labels name value

def addIfAbsent (labels : List Label) (name value : String) : List Label :=
  if labels.any (·.name == name) then labels else labels ++ [⟨name, value⟩]

/-- Attach one target label to a scraped series. -/
def mergeTargetLabel (honorLabels : Bool) (labels : List Label) (targetLabel : Label) :
    List Label :=
  if honorLabels then addIfAbsent labels targetLabel.name targetLabel.value
  else
    match labels.find? (fun label => label.name == targetLabel.name) with
    | some existing =>
        -- the label exists, so its value is replaced in place
        let labels := setLabel labels targetLabel.name targetLabel.value
        setLabel labels (exportedLabelPrefix ++ targetLabel.name) existing.value
    | none => labels ++ [targetLabel]

/-- Attach target labels to a scraped series. -/
def mergeTargetLabels (labels targetLabels : List Label) (honorLabels : Bool) : List Label :=
  targetLabels.foldl (mergeTargetLabel honorLabels) labels

/-- The external labels that are not set yet. -/
def addExternalLabels (labels externalLabels : List Label) : List Label :=
  externalLabels.foldl (fun labels external => addIfAbsent labels external.name external.value)
    labels

/-- Merge target labels, apply metric relabeling, attach external labels, sort; `none` when relabeling
drops the series. -/
def finalizeSeriesLabels (deps : RelabelDeps) (raw : List Label) (target : Target deps.engine) :
    Except Fault (Option (List Label)) :=
  match process deps (mergeTargetLabels raw target.labels target.honorLabels)
      target.metricRelabelConfigs with
  | .ok (some labels) => .ok (some (sortLabels (addExternalLabels labels target.externalLabels)))
  | .ok none => .ok none
  | .error fault => .error fault

/-- The loop of `scrape_once` over the parsed series. -/
def finalizeBatch (deps : RelabelDeps) (target : Target deps.engine) :
    List TimeSeries → Except ScrapePanic (List TimeSeries)
  | [] => .ok []
  | single :: rest =>
      match finalizeSeriesLabels deps single.labels target with
      | .error fault => .error (.relabel fault)
      | .ok none => finalizeBatch deps target rest
      | .ok (some labels) =>
          (finalizeBatch deps target rest).map ({ single with labels := labels } :: ·)

/-! ## One scrape -/

/-- One firing of the target's timer: when, how long the fetch took, and what it gave. -/
structure ScrapeEvent where
  startMs : Int64
  /-- In seconds. -/
  duration : F64
  fetched : Except String ScrapeBody

/-- One scrape's output. -/
structure ScrapeOutcome where
  series : List TimeSeries
  report : List TimeSeries
  /-- Raw exposition body, only with staleness tracking and if `series` was emitted. -/
  retainedBody : Option ScrapeBody
  startMs : Int64
  error : Option ScrapeError
deriving DecidableEq, Repr

/-- The variables of `scrape_once` that the fetched body decides. -/
structure Scraped where
  up : F64
  scraped : Nat
  kept : Nat
  error : Option ScrapeError
  retainedBody : Option ScrapeBody
  batch : List TimeSeries

/-- A scrape that emits nothing. -/
def Scraped.failed (scraped : Nat) (error : ScrapeError) : Scraped where
  up := F64.zero
  scraped := scraped
  kept := 0
  error := some error
  retainedBody := none
  batch := []

/-- The body of `scrape_once` up to the report series. -/
def scrapeFetched (deps : ScrapeDeps) (target : Target deps.relabel.engine) (startMs : Int64)
    (fetched : Except String ScrapeBody) : Except ScrapePanic Scraped :=
  match fetched with
  | .error message => .ok (Scraped.failed 0 (.fetch message))
  | .ok body =>
      match parseBody deps target body.bytes body.format startMs with
      | .error panic => .error panic
      | .ok (.error error) => .ok (Scraped.failed 0 error)
      | .ok (.ok series) =>
          if 0 < target.sampleLimit ∧ target.sampleLimit < UInt64.ofNat series.length then
            .ok (Scraped.failed series.length (.sampleLimit series.length target.sampleLimit))
          else
            (finalizeBatch deps.relabel target series).map fun batch => {
              up := F64.one
              scraped := series.length
              kept := batch.length
              error := none
              retainedBody := if target.trackStaleness then some body else none
              batch := batch }

/-- A synthetic series about the scrape itself. -/
def reportSeries (reportLabels : List Label) (startMs : Int64) (name : String) (value : F64) :
    TimeSeries where
  labels := sortLabels (⟨metricNameLabel, name⟩ :: reportLabels)
  sample := { value := value, timestamp := startMs }
  identityHash := 0
  histogram := none

/-- The report series, always emitted, with target and external labels. -/
def reportBatch {E : Engine} (target : Target E) (event : ScrapeEvent) (scraped : Scraped) :
    List TimeSeries :=
  let labels := sortLabels (addExternalLabels target.labels target.externalLabels)
  [reportSeries labels event.startMs "up" scraped.up,
    reportSeries labels event.startMs "scrape_duration_seconds" event.duration,
    reportSeries labels event.startMs "scrape_samples_scraped"
      (toF64 (UInt64.ofNat scraped.scraped)),
    reportSeries labels event.startMs "scrape_samples_post_metric_relabeling"
      (toF64 (UInt64.ofNat scraped.kept)),
    reportSeries labels event.startMs "scrape_series_added" (toF64 (UInt64.ofNat scraped.kept))]

def scrapeOnce (deps : ScrapeDeps) (target : Target deps.relabel.engine) (event : ScrapeEvent) :
    Except ScrapePanic ScrapeOutcome :=
  (scrapeFetched deps target event.startMs event.fetched).map fun scraped => {
    series := scraped.batch
    report := reportBatch target event scraped
    retainedBody := scraped.retainedBody
    startMs := event.startMs
    error := scraped.error }

/-! ## Staleness tracking -/

/-- A single-sample series carrying the staleness marker. -/
def staleSeries (labels : List Label) (timestamp : Int64) : TimeSeries where
  labels := labels
  sample := { value := staleNan, timestamp := timestamp }
  identityHash := 0
  histogram := none

structure RetainedScrape where
  compressed : List UInt8
  format : BodyFormat
  startMs : Int64
deriving DecidableEq, Repr

/-- The previous scrape's body and the hashes of its scrape-timestamped series. -/
structure SeriesTracker where
  retained : Option RetainedScrape
  /-- Sorted. -/
  hashes : List UInt64
deriving DecidableEq, Repr

def SeriesTracker.default : SeriesTracker where
  retained := none
  hashes := []

/-- The loop of `rederive_markers` over the series of the retained body; `consumed` has one flag for
each hash in `vanished`. -/
def rederiveFrom (deps : RelabelDeps) (target : Target deps.engine) (retainedStartMs : Int64)
    (vanished : List UInt64) (timestamp : Int64) :
    List TimeSeries → List Bool → Except ScrapePanic (List TimeSeries)
  | [], _ => .ok []
  | single :: rest, consumed =>
      if single.sample.timestamp ≠ retainedStartMs then
        rederiveFrom deps target retainedStartMs vanished timestamp rest consumed
      else
        match binarySearch vanished single.identityHash with
        | none => rederiveFrom deps target retainedStartMs vanished timestamp rest consumed
        | some index =>
            if consumed[index]? = some true then
              rederiveFrom deps target retainedStartMs vanished timestamp rest consumed
            else
              match finalizeSeriesLabels deps single.labels target with
              | .error fault => .error (.relabel fault)
              | .ok none => rederiveFrom deps target retainedStartMs vanished timestamp rest consumed
              | .ok (some labels) =>
                  (rederiveFrom deps target retainedStartMs vanished timestamp rest
                    (consumed.set index true)).map (staleSeries labels timestamp :: ·)

/-- Re-parse the retained body and rebuild the final label sets of the `vanished` hashes. -/
def SeriesTracker.rederiveMarkers (deps : ScrapeDeps) (target : Target deps.relabel.engine)
    (tracker : SeriesTracker) (vanished : List UInt64) (timestamp : Int64) :
    Except ScrapePanic (List TimeSeries) :=
  if vanished.isEmpty then .ok []
  else
    match tracker.retained with
    | none => .ok []
    | some retained =>
        match deps.decompress retained.compressed with
        | none => .ok []
        | some body =>
            match parseBody deps target body retained.format retained.startMs with
            | .error panic => .error panic
            | .ok (.error _) => .ok []
            | .ok (.ok series) =>
                rederiveFrom deps.relabel target retained.startMs vanished timestamp series
                  (vanished.map fun _ => false)

/-- The hashes of the series in `batch` that carry the scrape timestamp. -/
def currentHashes (batch : List TimeSeries) (startMs : Int64) : List UInt64 :=
  sortDedup ((batch.filter (·.sample.timestamp == startMs)).map (·.identityHash))

/-- The retained body after a scrape: replaced when the series set changed. -/
def SeriesTracker.retain (deps : ScrapeDeps) (tracker : SeriesTracker) (current : List UInt64)
    (retainedBody : Option ScrapeBody) (startMs : Int64) : Option RetainedScrape :=
  match retainedBody with
  | none => none
  | some body =>
      if tracker.retained.isNone ∨ tracker.hashes ≠ current then
        (deps.compress body.bytes).map fun compressed => ⟨compressed, body.format, startMs⟩
      else tracker.retained

/-- Advance by one scrape; one marker for every series present before but gone now. -/
def SeriesTracker.advance (deps : ScrapeDeps) (target : Target deps.relabel.engine)
    (tracker : SeriesTracker) (batch : List TimeSeries) (retainedBody : Option ScrapeBody)
    (startMs : Int64) : Except ScrapePanic (List TimeSeries × SeriesTracker) :=
  let current := currentHashes batch startMs
  let vanished := tracker.hashes.filter fun hash => (binarySearch current hash).isNone
  (tracker.rederiveMarkers deps target vanished startMs).map fun markers =>
    (markers, ⟨tracker.retain deps current retainedBody startMs, current⟩)

/-- Emit markers for everything currently tracked. -/
def SeriesTracker.drainAll (deps : ScrapeDeps) (target : Target deps.relabel.engine)
    (tracker : SeriesTracker) (timestamp : Int64) :
    Except ScrapePanic (List TimeSeries × SeriesTracker) :=
  (tracker.rederiveMarkers deps target tracker.hashes timestamp).map fun markers =>
    (markers, SeriesTracker.default)

/-! ## The scrape loop -/

/-- What `scrape_loop` carries from round to round. -/
structure LoopState where
  /-- Nothing when tracking is off. -/
  tracker : Option SeriesTracker
  /-- The label sets of the report series, once known. -/
  reportSeries : List (List Label)
deriving DecidableEq, Repr

def LoopState.init {E : Engine} (target : Target E) : LoopState where
  tracker := if target.trackStaleness then some SeriesTracker.default else none
  reportSeries := []

/-- What one round hands to remote write. -/
structure Round where
  series : List TimeSeries
  markers : List TimeSeries
  report : List TimeSeries
deriving DecidableEq, Repr

/-- The batch that is sent. -/
def Round.batch (round : Round) : List TimeSeries := round.series ++ round.markers ++ round.report

/-- The part of a round after the scrape. -/
def LoopState.record (deps : ScrapeDeps) (target : Target deps.relabel.engine) (state : LoopState)
    (outcome : ScrapeOutcome) : Except ScrapePanic (Round × LoopState) :=
  match state.tracker with
  | none => .ok (⟨outcome.series, [], outcome.report⟩, state)
  | some tracker =>
      (tracker.advance deps target outcome.series outcome.retainedBody outcome.startMs).map
        fun advanced =>
          (⟨outcome.series, advanced.1, outcome.report⟩,
            { tracker := some advanced.2
              reportSeries :=
                if state.reportSeries.isEmpty then outcome.report.map (·.labels)
                else state.reportSeries })

/-- The rounds of `scrape_loop`. -/
def scrapeLoop (deps : ScrapeDeps) (target : Target deps.relabel.engine) :
    LoopState → List ScrapeEvent → Except ScrapePanic (List Round × LoopState)
  | state, [] => .ok ([], state)
  | state, event :: rest => do
      let outcome ← scrapeOnce deps target event
      let (round, state) ← state.record deps target outcome
      let (rounds, state) ← scrapeLoop deps target state rest
      .ok (round :: rounds, state)

/-- The exit of `scrape_loop` when the target left the target set: the markers that are sent. -/
def LoopState.removed (deps : ScrapeDeps) (target : Target deps.relabel.engine) (state : LoopState)
    (timestamp : Int64) : Except ScrapePanic (List TimeSeries) :=
  match state.tracker with
  | none => .ok []
  | some tracker =>
      (tracker.drainAll deps target timestamp).map fun drained =>
        drained.1 ++ state.reportSeries.map (staleSeries · timestamp)

end PromScrape
