import PromScrape.Implementation.Telemetry
import PromScrape.Proofs.Targets
import PromScrape.Proofs.SentLabels

set_option autoImplicit false

/-! # Labels of synthetic series

The report series of a scrape and the self-monitoring series put names of their own beside labels that
the configuration chooses. External labels that are taken from the target's or the monitor's own
labels are skipped, but no path looks at `__name__`, and none at the `version` of the build info. -/

namespace PromScrape

/-! ## Report series -/

/-- `__name__` is no label of a target that discovery built. -/
theorem Target.OfJob.nameTaken_iff {deps : RelabelDeps} {job : ScrapeConfig deps.engine}
    {global : GlobalConfig} {externalLabels : List Label} {trackStaleness : Bool}
    {target : Target deps.engine} (h : target.OfJob job global externalLabels trackStaleness) :
    NameTaken target ↔ metricNameLabel ∈ externalLabels.map Label.name := by
  have hown : metricNameLabel ∉ target.labels.map Label.name := by
    intro hmem
    obtain ⟨l, hl, hname⟩ := List.mem_map.mp hmem
    have hmeta := h.noMeta l hl
    rw [hname] at hmeta
    exact absurd hmeta (by decide)
  have hexternal : target.externalLabels = externalLabels := congrArg Target.externalLabels h.settings
  rw [NameTaken, hexternal, or_iff_right hown]

theorem scrapeOnce_report {deps : ScrapeDeps} {target : Target deps.relabel.engine}
    {event : ScrapeEvent} {outcome : ScrapeOutcome}
    (h : scrapeOnce deps target event = .ok outcome) :
    ∃ scraped, outcome.report = reportBatch target event scraped := by
  obtain ⟨scraped, -, rfl⟩ := Fallible.map_eq_ok.mp h
  exact ⟨scraped, rfl⟩

/-! ## Self-monitoring series -/

theorem selfMonitorLabels_eq (global : GlobalConfig) (hostname : Option String) :
    selfMonitorLabels global hostname = addExternalLabels
      [⟨"job", "prometheus-scrape-rs"⟩, ⟨"instance", hostname.getD "localhost"⟩]
      global.externalLabelList := by
  rw [selfMonitorLabels, addExternalLabels, GlobalConfig.externalLabelList, List.foldl_map]

theorem uniqueNames_selfMonitorLabels (global : GlobalConfig) (hostname : Option String) :
    UniqueNames (selfMonitorLabels global hostname) := by
  rw [selfMonitorLabels_eq]
  refine UniqueNames.addExternalLabels ?_ _
  rw [uniqueNames_cons]
  exact ⟨by simp, List.nodup_singleton _⟩

/-- The monitor's own names are `job` and `instance`. -/
theorem mem_selfMonitorLabels {global : GlobalConfig} {hostname : Option String} {name : String}
    (hjob : name ≠ "job") (hinstance : name ≠ "instance") :
    name ∈ (selfMonitorLabels global hostname).map Label.name ↔
      name ∈ global.externalLabelList.map Label.name := by
  rw [selfMonitorLabels_eq, mem_names_addExternalLabels]
  simp [hjob, hinstance]

/-- One series: its own names and `__name__` must not be among the extra labels. -/
theorem metricSeries_sorted_iff {extraLabels labels : List Label} (hextra : UniqueNames extraLabels)
    (hlabels : UniqueNames labels) (hown : metricNameLabel ∉ labels.map Label.name)
    (timestamp : Int64) (name : String) (value : F64) :
    StrictlySorted (metricSeries extraLabels timestamp name labels value).labels ↔
      metricNameLabel ∉ extraLabels.map Label.name ∧
        ∀ n ∈ labels.map Label.name, n ∉ extraLabels.map Label.name := by
  have hunique : UniqueNames (⟨metricNameLabel, name⟩ :: extraLabels) ↔
      metricNameLabel ∉ extraLabels.map Label.name :=
    uniqueNames_cons.trans (and_iff_left hextra)
  rw [metricSeries, strictlySorted_sortLabels_iff]
  refine (Keyed.unique_append.trans (and_iff_right hlabels)).trans (and_congr hunique ?_)
  refine forall₂_congr fun n hn => ?_
  have hne : n ≠ metricNameLabel := fun h => hown (h ▸ hn)
  rw [List.map_cons, List.mem_cons, not_or, and_iff_right hne]

/-- **All series of the registry**: `build_info` needs `version` besides `__name__`. -/
theorem metrics_series_sorted_iff {extraLabels : List Label} (hextra : UniqueNames extraLabels)
    (m : Metrics) (process : Option ProcessStats) (timestamp : Int64) :
    AllSorted (m.series process extraLabels timestamp) ↔
      metricNameLabel ∉ extraLabels.map Label.name ∧ "version" ∉ extraLabels.map Label.name := by
  have hversion : UniqueNames [⟨"version", cargoPkgVersion⟩] := List.nodup_singleton _
  have hbuild := metricSeries_sorted_iff hextra hversion (by decide) timestamp
    "prometheus_scrape_rs_build_info" F64.one
  have hplain : ∀ name value, StrictlySorted (metricSeries extraLabels timestamp name [] value).labels
      ↔ metricNameLabel ∉ extraLabels.map Label.name := by
    intro name value
    rw [metricSeries_sorted_iff hextra Keyed.unique_nil (by simp)]
    simp
  have hmem : AllSorted (m.series process extraLabels timestamp) ↔
      (∀ entry ∈ m.snapshot process, metricNameLabel ∉ extraLabels.map Label.name) ∧
        StrictlySorted (metricSeries extraLabels timestamp "prometheus_scrape_rs_build_info"
          [⟨"version", cargoPkgVersion⟩] F64.one).labels := by
    simp only [AllSorted, Metrics.series, List.mem_insertionSort, List.mem_append, List.mem_map,
      List.mem_singleton, or_imp, forall_and, forall_eq, forall_exists_index, and_imp,
      forall_apply_eq_imp_iff₂, hplain]
  rw [hmem, hbuild]
  simp only [List.map_cons, List.map_nil, List.mem_singleton, forall_eq]
  constructor
  · exact fun h => h.2
  · exact fun h => ⟨fun _ _ => h.1, h⟩

/-! ## A whole configuration -/

/-- Every synthetic series under a configuration obeys the label rule: what any scrape of any target
    reports, and what the monitor sends at any time. -/
def SyntheticSorted (deps : ScrapeDeps) (config : Config deps.relabel.engine) : Prop :=
  (∀ job ∈ config.scrapeConfigs, ∀ trackStaleness groups targets,
    buildTargets deps.relabel job config.global config.global.externalLabelList trackStaleness groups
      = .ok targets →
    ∀ target ∈ targets, ∀ event outcome, scrapeOnce deps target event = .ok outcome →
      AllSorted outcome.report) ∧
    ∀ (m : Metrics) process hostname timestamp,
      AllSorted (m.series process (selfMonitorLabels config.global hostname) timestamp)

/-- **Exactly which external labels keep the synthetic series in order.** -/
theorem syntheticSorted_iff (deps : ScrapeDeps) (config : Config deps.relabel.engine) :
    SyntheticSorted deps config ↔
      metricNameLabel ∉ config.global.externalLabels.entries.map Prod.fst ∧
        "version" ∉ config.global.externalLabels.entries.map Prod.fst := by
  have hnames : config.global.externalLabelList.map Label.name =
      config.global.externalLabels.entries.map Prod.fst := by
    rw [GlobalConfig.externalLabelList, List.map_map]
    rfl
  have hmonitor : ∀ (m : Metrics) process hostname timestamp,
      AllSorted (m.series process (selfMonitorLabels config.global hostname) timestamp) ↔
        metricNameLabel ∉ config.global.externalLabels.entries.map Prod.fst ∧
          "version" ∉ config.global.externalLabels.entries.map Prod.fst := by
    intro m process hostname timestamp
    rw [metrics_series_sorted_iff (uniqueNames_selfMonitorLabels _ _),
      mem_selfMonitorLabels (by decide) (by decide), mem_selfMonitorLabels (by decide) (by decide),
      hnames]
  constructor
  · intro h
    exact (hmonitor {} none none 0).mp (h.2 {} none none 0)
  · intro h
    refine ⟨?_, fun m process hostname timestamp => (hmonitor m process hostname timestamp).mpr h⟩
    intro job _ trackStaleness groups targets htargets target htarget event outcome houtcome
    have hjob := buildTargets_ofJob htargets target htarget
    obtain ⟨scraped, hreport⟩ := scrapeOnce_report houtcome
    rw [hreport]
    intro s hs
    rw [reportBatch_sorted_iff hjob.sorted.uniqueNames event scraped s hs, hjob.nameTaken_iff, hnames]
    exact h.1

/-- An accepted configuration that names its own version in an external label. -/
def versionedConfig : Config Regex.fragmentEngine where
  global := { externalLabels := { entries := [("version", "1.2")] } }

/-- **A duplicate name**: the build info has two `version` labels. -/
theorem versionedConfig_duplicates :
    versionedConfig.validate = .ok () ∧
      ∃ s ∈ Metrics.series {} none (selfMonitorLabels versionedConfig.global none) 0,
        s.labels.map Label.name = ["__name__", "instance", "job", "version", "version"] ∧
          ¬ StrictlySorted s.labels :=
  ⟨rfl, by decide +kernel⟩

end PromScrape
