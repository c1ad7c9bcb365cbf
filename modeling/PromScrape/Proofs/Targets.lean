import PromScrape.Library.Fallible
import PromScrape.Implementation.Targets
import PromScrape.Proofs.LabelNames

set_option autoImplicit false

/-! # What discovery and target relabeling can produce

Every target of a job comes from one address of one group. Its labels obey the label rule, none of
them is a `__` label, and `instance` is among them; everything else about it is fixed by the job, so
two targets of a job with equal URL, parameters and labels are one. -/

namespace PromScrape

open Fallible (map_eq_ok mem_mapM)
open Regex (Engine)

/-! ## Labels of a target -/

section

variable {E : Engine} {labels : List Label} {address : String}

theorem UniqueNames.setEntries (h : UniqueNames labels) (entries : List (String × String)) :
    UniqueNames (entries.foldl (fun labels entry => setLabel labels entry.1 entry.2) labels) := by
  induction entries generalizing labels with
  | nil => exact h
  | cons entry rest ih => exact ih (h.set entry.1 entry.2)

/-- Discovery and the defaults give every name one value. -/
theorem uniqueNames_seedLabels (job : ScrapeConfig E) (group : TargetGroup) (address : String) :
    UniqueNames (seedLabels job group address) := by
  have hstart : UniqueNames [⟨"__address__", address⟩] := List.nodup_singleton _
  have hdefaults := (((hstart.setEntries
    (group.labels.entries.filter (·.1 ≠ "__address__"))).addIfAbsent "job" job.jobName).addIfAbsent
      "__scheme__" job.scheme).addIfAbsent "__metrics_path__" job.metricsPath
  rw [seedLabels]
  generalize job.params.entries = params
  induction params using List.reverseRecOn with
  | nil => exact hdefaults
  | append_singleton params param ih =>
      rw [List.foldl_append, List.foldl_cons, List.foldl_nil]
      cases param.2.head? with
      | none => exact ih
      | some first => exact ih.addIfAbsent _ _

theorem mem_finalTargetLabels {l : Label} :
    l ∈ finalTargetLabels labels address ↔
      l ∈ addIfAbsent labels "instance" address ∧ startsWith l.name "__" = false := by
  rw [finalTargetLabels, (sortLabels_perm _).mem_iff, List.mem_filter]
  simp

/-- **The labels of a target obey the label rule.** -/
theorem strictlySorted_finalTargetLabels (h : UniqueNames labels) (address : String) :
    StrictlySorted (finalTargetLabels labels address) :=
  strictlySorted_sortLabels_iff.mpr ((h.addIfAbsent _ _).filter _)

theorem instance_mem_finalTargetLabels (labels : List Label) (address : String) :
    "instance" ∈ (finalTargetLabels labels address).map Label.name := by
  have hmem : "instance" ∈ (addIfAbsent labels "instance" address).map Label.name := by
    rw [addIfAbsent_eq_insertIfAbsent]
    exact Keyed.mem_map_insertIfAbsent.mpr (.inl rfl)
  obtain ⟨l, hl, hname⟩ := List.mem_map.mp hmem
  refine List.mem_map.mpr ⟨l, mem_finalTargetLabels.mpr ⟨hl, ?_⟩, hname⟩
  rw [hname]
  decide

end

/-! ## Targets of a job -/

/-- What all targets of a job have in common. -/
structure Target.OfJob {E : Engine} (job : ScrapeConfig E) (global : GlobalConfig)
    (externalLabels : List Label) (trackStaleness : Bool) (target : Target E) : Prop where
  sorted : StrictlySorted target.labels
  noMeta : ∀ l ∈ target.labels, startsWith l.name "__" = false
  hasInstance : "instance" ∈ target.labels.map Label.name
  settings : target = {
    url := target.url
    params := target.params
    labels := target.labels
    interval := job.interval global
    timeout := job.timeout global
    honorLabels := job.honorLabels
    honorTimestamps := job.honorTimestamps
    sampleLimit := job.sampleLimit
    bodySizeLimit := job.bodySizeLimit.asBytes
    accept := acceptHeader (job.protocols global)
    protobuf := job.protobufOptions global
    trackStaleness := trackStaleness
    metricRelabelConfigs := job.metricRelabelConfigs
    externalLabels := externalLabels }

section

variable {deps : RelabelDeps} {job : ScrapeConfig deps.engine} {global : GlobalConfig}
  {externalLabels : List Label} {trackStaleness : Bool}

theorem targetOf_ofJob {labels : List Label} {target : Target deps.engine}
    (hlabels : UniqueNames labels)
    (h : targetOf job global externalLabels trackStaleness labels = some target) :
    target.OfJob job global externalLabels trackStaleness := by
  simp only [targetOf] at h
  split at h
  · cases h
  · cases h
    exact {
      sorted := strictlySorted_finalTargetLabels hlabels _
      noMeta := fun l hl => (mem_finalTargetLabels.mp hl).2
      hasInstance := instance_mem_finalTargetLabels _ _
      settings := rfl }

theorem buildTarget_ofJob {group : TargetGroup} {address : String} {target : Target deps.engine}
    (h : buildTarget deps job global externalLabels trackStaleness group address
      = .ok (some target)) : target.OfJob job global externalLabels trackStaleness := by
  obtain ⟨processed, hprocessed, htarget⟩ := map_eq_ok.mp h
  cases processed with
  | none => cases htarget
  | some labels =>
      exact targetOf_ofJob ((uniqueNames_seedLabels job group address).process hprocessed) htarget

/-- **Where targets come from.** -/
theorem mem_buildTargets {groups : List TargetGroup} {targets : List (Target deps.engine)}
    (h : buildTargets deps job global externalLabels trackStaleness groups = .ok targets)
    {target : Target deps.engine} :
    target ∈ targets ↔ ∃ group ∈ groups, ∃ address ∈ group.targets,
      buildTarget deps job global externalLabels trackStaleness group address
        = .ok (some target) := by
  obtain ⟨built, hbuilt, rfl⟩ := map_eq_ok.mp h
  have hmem : target ∈ built.filterMap id ↔ some target ∈ built := by simp [List.mem_filterMap]
  rw [hmem, mem_mapM hbuilt]
  constructor
  · rintro ⟨entry, hentry, hstep⟩
    obtain ⟨group, hgroup, hentry⟩ := List.mem_flatMap.mp hentry
    obtain ⟨address, haddress, rfl⟩ := List.mem_map.mp hentry
    exact ⟨group, hgroup, address, haddress, hstep⟩
  · rintro ⟨group, hgroup, address, haddress, hstep⟩
    exact ⟨(group, address),
      List.mem_flatMap.mpr ⟨group, hgroup, List.mem_map.mpr ⟨address, haddress, rfl⟩⟩, hstep⟩

theorem buildTargets_ofJob {groups : List TargetGroup} {targets : List (Target deps.engine)}
    (h : buildTargets deps job global externalLabels trackStaleness groups = .ok targets) :
    ∀ target ∈ targets, target.OfJob job global externalLabels trackStaleness := by
  intro target htarget
  obtain ⟨_, _, _, _, hstep⟩ := (mem_buildTargets h).mp htarget
  exact buildTarget_ofJob hstep

end

end PromScrape
