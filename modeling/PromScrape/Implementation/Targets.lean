import PromScrape.Library.Keyed
import PromScrape.Implementation.Scrape

set_option autoImplicit false

/-! # From discovered groups to targets (`build_targets` in `src/scrape.rs`)

Each address of each discovered group is labelled from the group and the job's defaults, relabelled,
and turned into a target whose URL and parameters come from the `__` labels. -/

namespace PromScrape

open Regex (Engine)

/-- A group of targets sharing a label set, as produced by discovery. -/
structure TargetGroup where
  targets : List String
  labels : StringMap := .empty
deriving DecidableEq, Repr

/-- The protocols in preference order with descending q-values, from `weight` on, then a catch-all. -/
def acceptFrom (weight : Nat) (header : String) : List ScrapeProtocol → String
  | [] => header ++ "*/*;q=0." ++ toString weight
  | protocol :: rest =>
      acceptFrom (weight - 1)
        (header ++ protocol.mediaType ++ ";q=0." ++ toString weight ++ ",") rest

def acceptHeader (protocols : List ScrapeProtocol) : String := acceptFrom 6 "" protocols

/-- `str::starts_with`. -/
def startsWith (s lit : String) : Bool := (stripPrefix s lit).isSome

/-- `external_labels` as the label list that `spawn_jobs` shares among the targets. -/
def GlobalConfig.externalLabelList (global : GlobalConfig) : List Label :=
  global.externalLabels.entries.map fun entry => ⟨entry.1, entry.2⟩

section

variable {E : Engine}

/-- The groups of `static_configs`. -/
def staticGroups (job : ScrapeConfig E) : List TargetGroup :=
  job.staticConfigs.map fun sc => ⟨sc.targets, sc.labels⟩

/-- Whether discovery can change: a `file_sd` slot or a Kubernetes slot. -/
def hasDynamicSources (job : ScrapeConfig E) : Bool :=
  !job.fileSdConfigs.isEmpty || !job.kubernetesSdConfigs.isEmpty

/-- The labels an address has before relabeling: its own, those of the group, and the defaults of the
scrape config where discovery did not set them. -/
def seedLabels (job : ScrapeConfig E) (group : TargetGroup) (address : String) : List Label :=
  let labels := (group.labels.entries.filter (·.1 ≠ "__address__")).foldl
    (fun labels entry => setLabel labels entry.1 entry.2) [⟨"__address__", address⟩]
  let labels := addIfAbsent labels "job" job.jobName
  let labels := addIfAbsent labels "__scheme__" job.scheme
  let labels := addIfAbsent labels "__metrics_path__" job.metricsPath
  job.params.entries.foldl
    (fun labels param =>
      match param.2.head? with
      | some first => addIfAbsent labels ("__param_" ++ param.1) first
      | none => labels) labels

/-- The path of the URL, with a leading slash unless it is empty. -/
def urlPath (path : String) : String :=
  if !path.isEmpty && !startsWith path "/" then "/" ++ path else path

/-- The request parameters that the labels ask for. -/
def paramsOf (labels : List Label) : List (String × String) :=
  labels.filterMap fun label => (stripPrefix label.name "__param_").map (·, label.value)

/-- The labels that the series of the target get. -/
def finalTargetLabels (labels : List Label) (address : String) : List Label :=
  sortLabels ((addIfAbsent labels "instance" address).filter fun l => !startsWith l.name "__")

/-- `Options` of the protobuf parser for a job. -/
def ScrapeConfig.protobufOptions (job : ScrapeConfig E) (global : GlobalConfig) :
    ProtobufOptions where
  honorTimestamps := job.honorTimestamps
  nativeHistograms := job.nativeHistograms global
  classicHistograms := job.classicHistograms global
  bucketLimit := job.nativeHistogramBucketLimit

/-- What becomes of an address whose labels are those after relabeling. -/
def targetOf (job : ScrapeConfig E) (global : GlobalConfig) (externalLabels : List Label)
    (trackStaleness : Bool) (labels : List Label) : Option (Target E) :=
  let address := getLabel labels "__address__"
  if address.isEmpty then none
  else
    some {
      url := getLabel labels "__scheme__" ++ "://" ++ address ++
        urlPath (getLabel labels "__metrics_path__")
      params := paramsOf labels
      labels := finalTargetLabels labels address
      interval := job.interval global
      timeout := job.timeout global
      honorLabels := job.honorLabels
      honorTimestamps := job.honorTimestamps
      sampleLimit := job.sampleLimit
      bodySizeLimit := job.bodySizeLimit.asBytes
      accept := acceptHeader (job.protocols global)
      protobuf := job.protobufOptions global
      trackStaleness := trackStaleness
      metricRelabelConfigs := job.metricRelabelConfigs
      externalLabels := externalLabels }

end

/-- The body of the inner loop of `build_targets`; `none` for an address that is dropped. -/
def buildTarget (deps : RelabelDeps) (job : ScrapeConfig deps.engine) (global : GlobalConfig)
    (externalLabels : List Label) (trackStaleness : Bool) (group : TargetGroup)
    (address : String) : Except Fault (Option (Target deps.engine)) :=
  (process deps (seedLabels job group address) job.relabelConfigs).map
    (·.bind (targetOf job global externalLabels trackStaleness))

/-- `build_targets`. -/
def buildTargets (deps : RelabelDeps) (job : ScrapeConfig deps.engine) (global : GlobalConfig)
    (externalLabels : List Label) (trackStaleness : Bool) (groups : List TargetGroup) :
    Except Fault (List (Target deps.engine)) :=
  ((groups.flatMap fun group => group.targets.map (group, ·)).mapM fun entry =>
    buildTarget deps job global externalLabels trackStaleness entry.1 entry.2).map
      (·.filterMap id)

/-- The targets by identity, as `run_job` collects them: a later target takes the place of an earlier
one with its identity. -/
def desiredTargets {E : Engine} (targets : List (Target E)) : List (UInt64 × Target E) :=
  Keyed.upsertAll Prod.fst (targets.map fun target => (target.identity, target)) []

end PromScrape
