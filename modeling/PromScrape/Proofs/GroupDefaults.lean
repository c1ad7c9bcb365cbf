import PromScrape.Proofs.EmptyLabels
import PromScrape.Proofs.Targets

set_option autoImplicit false

/-! # Defaults of a job under empty group labels

The configured job name, scheme, path and parameters go into the labels of an address where discovery
has no label of their name. A label that discovery sets to nothing is there, so the default is not
added; relabeling then removes the label. -/

namespace PromScrape

open Lockstep (Agree AtEach)
open Fallible (map_eq_ok)
open Regex (Engine)

/-! ## Labels before relabeling -/

section

variable (labels labels' : List Label) (name : String)

theorem get_append : LabelSet.get (labels ++ labels') name =
    if name ∈ labels.map Label.name then LabelSet.get labels name else LabelSet.get labels' name := by
  induction labels with
  | nil => rfl
  | cons label rest ih =>
      rw [List.cons_append, get_cons, get_cons, ih, List.map_cons]
      by_cases hname : label.name = name
      · simp [hname]
      · simp [hname, Ne.symm hname]

theorem get_of_not_mem (h : name ∉ labels.map Label.name) : LabelSet.get labels name = "" := by
  rw [LabelSet.get, Keyed.find?_eq_none_iff.mpr h]

/-- Defaults are read where there is no label, the first one of a name counting. -/
theorem get_addDefaults (defaults : List Label) :
    LabelSet.get (defaults.foldl (fun labels d => addIfAbsent labels d.name d.value) labels) name =
      if name ∈ labels.map Label.name then LabelSet.get labels name
      else LabelSet.get defaults name := by
  induction defaults generalizing labels with
  | nil =>
      rw [List.foldl_nil]
      by_cases h : name ∈ labels.map Label.name
      · rw [if_pos h]
      · rw [if_neg h, get_of_not_mem labels name h]
        rfl
  | cons d rest ih =>
      rw [List.foldl_cons, ih, get_cons]
      by_cases hpresent : d.name ∈ labels.map Label.name
      · rw [addIfAbsent, if_pos (Keyed.any_key_iff.mpr hpresent)]
        by_cases h : name ∈ labels.map Label.name
        · rw [if_pos h, if_pos h]
        · have hne : d.name ≠ name := fun heq => h (heq ▸ hpresent)
          rw [if_neg h, if_neg h, if_neg hne]
      · rw [addIfAbsent, if_neg (mt Keyed.any_key_iff.mp hpresent), get_append, get_cons]
        by_cases h : name ∈ labels.map Label.name
        · simp [h]
        · by_cases hne : d.name = name
          · simp [h, hne]
          · simp [h, hne, Ne.symm hne]

end

section

variable {E : Engine} (job : ScrapeConfig E) (group : TargetGroup) (address : String)

/-- What the job configures, as labels. -/
def jobDefaults : List Label :=
  ⟨"job", job.jobName⟩ :: ⟨"__scheme__", job.scheme⟩ :: ⟨"__metrics_path__", job.metricsPath⟩ ::
    job.params.entries.filterMap fun param => param.2.head?.map (⟨"__param_" ++ param.1, ·⟩)

/-- What discovery sets. -/
def discoveredLabels : List Label :=
  (group.labels.entries.filter (·.1 ≠ "__address__")).foldl
    (fun labels entry => setLabel labels entry.1 entry.2) [⟨"__address__", address⟩]

theorem seedLabels_eq : seedLabels job group address =
    (jobDefaults job).foldl (fun labels d => addIfAbsent labels d.name d.value)
      (discoveredLabels group address) := by
  rw [jobDefaults, List.foldl_cons, List.foldl_cons, List.foldl_cons, List.foldl_filterMap, seedLabels]
  congr 1
  funext labels param
  cases param.2.head? <;> rfl

theorem mem_names_setEntries (entries : List (String × String)) (labels : List Label)
    {name : String} :
    name ∈ (entries.foldl (fun labels entry => setLabel labels entry.1 entry.2) labels).map
      Label.name ↔ name ∈ entries.map Prod.fst ∨ name ∈ labels.map Label.name := by
  induction entries generalizing labels with
  | nil => simp
  | cons entry rest ih =>
      have hset : name ∈ (setLabel labels entry.1 entry.2).map Label.name ↔
          name = entry.1 ∨ name ∈ labels.map Label.name := by
        rw [setLabel, set_eq_upsert]
        exact Keyed.mem_map_upsert
      rw [List.foldl_cons, ih, hset, List.map_cons, List.mem_cons]
      tauto

theorem mem_names_discoveredLabels {name : String} :
    name ∈ (discoveredLabels group address).map Label.name ↔
      name = "__address__" ∨ name ∈ group.labels.entries.map Prod.fst := by
  rw [discoveredLabels, mem_names_setEntries, List.map_singleton, List.mem_singleton]
  by_cases hname : name = "__address__"
  · exact iff_of_true (.inr hname) (.inl hname)
  · rw [or_iff_left hname, or_iff_right hname, List.mem_map, List.mem_map]
    refine exists_congr fun entry => and_congr_left fun heq => ?_
    rw [List.mem_filter, heq]
    exact and_iff_left (decide_eq_true hname)

theorem get_setEntries_of_not_mem {entries : List (String × String)} {name : String}
    (h : name ∉ entries.map Prod.fst) (labels : List Label) :
    LabelSet.get (entries.foldl (fun labels entry => setLabel labels entry.1 entry.2) labels) name =
      LabelSet.get labels name := by
  induction entries generalizing labels with
  | nil => rfl
  | cons entry rest ih =>
      rw [List.map_cons, List.mem_cons, not_or] at h
      rw [List.foldl_cons, ih h.2, setLabel, get_set, if_neg (Ne.symm h.1)]

theorem get_setEntries_of_mem {entries : List (String × String)}
    (hunique : Keyed.Unique Prod.fst entries) {name value : String} (h : (name, value) ∈ entries)
    (labels : List Label) :
    LabelSet.get (entries.foldl (fun labels entry => setLabel labels entry.1 entry.2) labels) name =
      value := by
  induction entries generalizing labels with
  | nil => cases h
  | cons entry rest ih =>
      obtain ⟨hfresh, hrest⟩ := Keyed.unique_cons.mp hunique
      rcases List.mem_cons.mp h with rfl | h
      · rw [List.foldl_cons, get_setEntries_of_not_mem hfresh, setLabel, get_set, if_pos rfl]
      · exact ih hrest h _

end

theorem StringMap.unique (map : StringMap) : Keyed.Unique Prod.fst map.entries :=
  List.pairwise_map.mpr (map.sorted.imp fun h => h.ne)

section

variable {group : TargetGroup} (address : String)

theorem get_discoveredLabels_address :
    LabelSet.get (discoveredLabels group address) "__address__" = address := by
  rw [discoveredLabels, get_setEntries_of_not_mem, get_cons, if_pos rfl]
  rw [List.mem_map]
  rintro ⟨entry, hentry, hname⟩
  have hne := of_decide_eq_true (List.mem_filter.mp hentry).2
  exact hne hname

theorem get_discoveredLabels {name value : String} (h : (name, value) ∈ group.labels.entries)
    (hname : name ≠ "__address__") :
    LabelSet.get (discoveredLabels group address) name = value := by
  refine get_setEntries_of_mem (group.labels.unique.filter _) ?_ _
  exact List.mem_filter.mpr ⟨h, decide_eq_true hname⟩

end

/-! ## Empty group labels -/

/-- The group without its empty labels. -/
def TargetGroup.withoutEmpty (group : TargetGroup) : TargetGroup where
  targets := group.targets
  labels := {
    entries := group.labels.entries.filter fun entry => !entry.2.isEmpty
    sorted := group.labels.sorted.filter _ }

/-- No empty label of the group has the name of a default that is not empty. -/
def DefaultsUnblocked {E : Engine} (job : ScrapeConfig E) (group : TargetGroup) : Prop :=
  ∀ name, (name, "") ∈ group.labels.entries → name ≠ "__address__" →
    LabelSet.get (jobDefaults job) name = ""

section

variable {E : Engine} {job : ScrapeConfig E} {group : TargetGroup}

theorem get_seedLabels (address name : String) :
    LabelSet.get (seedLabels job group address) name =
      if name ∈ (discoveredLabels group address).map Label.name then
        LabelSet.get (discoveredLabels group address) name
      else LabelSet.get (jobDefaults job) name := by
  rw [seedLabels_eq, get_addDefaults]

theorem get_seedLabels_of_mem {name value : String} (h : (name, value) ∈ group.labels.entries)
    (hname : name ≠ "__address__") (address : String) :
    LabelSet.get (seedLabels job group address) name = value := by
  have hmem : name ∈ (discoveredLabels group address).map Label.name :=
    (mem_names_discoveredLabels group address).mpr (.inr (List.mem_map_of_mem h))
  rw [get_seedLabels, if_pos hmem, get_discoveredLabels address h hname]

theorem get_seedLabels_of_not_mem {name : String} (h : name ∉ group.labels.entries.map Prod.fst)
    (hname : name ≠ "__address__") (address : String) :
    LabelSet.get (seedLabels job group address) name = LabelSet.get (jobDefaults job) name := by
  have hnot : name ∉ (discoveredLabels group address).map Label.name := by
    rw [mem_names_discoveredLabels, not_or]
    exact ⟨hname, h⟩
  rw [get_seedLabels, if_neg hnot]

/-- Without its empty labels the group has the default in the place of an empty label. -/
theorem get_seedLabels_withoutEmpty_of_empty {name : String}
    (h : (name, "") ∈ group.labels.entries) (hname : name ≠ "__address__") (address : String) :
    LabelSet.get (seedLabels job group.withoutEmpty address) name =
      LabelSet.get (jobDefaults job) name := by
  refine get_seedLabels_of_not_mem (fun hmem => ?_) hname address
  obtain ⟨entry, hentry, hentryName⟩ := List.mem_map.mp hmem
  obtain ⟨hentry, hvalue⟩ := List.mem_filter.mp hentry
  rw [group.labels.unique.eq_of_key hentry h hentryName] at hvalue
  cases hvalue

theorem get_seedLabels_address (address : String) :
    LabelSet.get (seedLabels job group address) "__address__" = address := by
  have hmem : "__address__" ∈ (discoveredLabels group address).map Label.name :=
    (mem_names_discoveredLabels group address).mpr (.inl rfl)
  rw [get_seedLabels, if_pos hmem, get_discoveredLabels_address]

/-- **Before relabeling an empty group label counts as missing exactly when it blocks no default.** -/
theorem alike_seedLabels_iff (address : String) :
    Alike (seedLabels job group address) (seedLabels job group.withoutEmpty address) ↔
      DefaultsUnblocked job group := by
  constructor
  · intro h name hempty hname
    rw [← get_seedLabels_withoutEmpty_of_empty hempty hname address, ← h.get,
      get_seedLabels_of_mem hempty hname]
  · intro h
    refine ⟨uniqueNames_seedLabels _ _ _, uniqueNames_seedLabels _ _ _, fun name => ?_⟩
    by_cases hname : name = "__address__"
    · rw [hname, get_seedLabels_address, get_seedLabels_address]
    by_cases hmem : name ∈ group.labels.entries.map Prod.fst
    · obtain ⟨⟨_, value⟩, hentry, rfl⟩ := List.mem_map.mp hmem
      rw [get_seedLabels_of_mem hentry hname]
      by_cases hvalue : value = ""
      · rw [hvalue] at hentry
        rw [hvalue, get_seedLabels_withoutEmpty_of_empty hentry hname, h _ hentry hname]
      · have hkept : (_, value) ∈ group.withoutEmpty.labels.entries :=
          List.mem_filter.mpr ⟨hentry, by simpa using hvalue⟩
        rw [get_seedLabels_of_mem hkept hname]
    · have hnot : name ∉ group.withoutEmpty.labels.entries.map Prod.fst := fun hkept =>
        hmem ((List.filter_sublist.map Prod.fst).subset hkept)
      rw [get_seedLabels_of_not_mem hmem hname, get_seedLabels_of_not_mem hnot hname]

end

/-! ## Targets -/

/-- The captured labels agree at every `labelmap` rule that two runs reach. -/
def LabelMapsAgree (deps : RelabelDeps) (labels labels' : List Label)
    (configs : List (RelabelConfig deps.engine)) : Prop :=
  AtEach (apply deps) (apply deps)
    (fun set set' config => config.action = .labelMap → SameCaptures set set' config)
    labels labels' configs

theorem labelMapsAgree_iff {deps : RelabelDeps} {labels labels' : List Label}
    (h : Alike labels labels') (configs : List (RelabelConfig deps.engine)) :
    LabelMapsAgree deps labels labels' configs ↔
      ∀ n, Agree Alike (applyAll deps labels (configs.take n))
        (applyAll deps labels' (configs.take n)) := by
  rw [LabelMapsAgree, Lockstep.atEach_iff (fun set set' config hset =>
    apply_agree_iff hset config) configs h]
  simp only [applyAll_eq_run]

/-- The same target but for the order of its parameters. -/
structure SameTarget {E : Engine} (target target' : Target E) : Prop where
  params : target.params.Perm target'.params
  rest : target = { target' with params := target.params }

section

variable {deps : RelabelDeps} {job : ScrapeConfig deps.engine} {global : GlobalConfig}
  {externalLabels : List Label} {trackStaleness : Bool}

theorem targetOf_sameTarget {labels labels' : List Label} (h : UniqueNames labels)
    (hperm : labels.Perm labels') :
    Agree SameTarget (.ok (targetOf job global externalLabels trackStaleness labels) : Except Fault _)
      (.ok (targetOf job global externalLabels trackStaleness labels')) := by
  have hget : ∀ name, getLabel labels name = getLabel labels' name := get_perm h hperm
  have hfinal : ∀ address, finalTargetLabels labels address = finalTargetLabels labels' address := by
    intro address
    exact sortLabels_eq_of_perm ((h.addIfAbsent _ _).filter _)
      ((addIfAbsent_perm h hperm "instance" address).filter _)
  rw [targetOf, targetOf]
  simp only [hget, hfinal]
  split
  · exact .dropped
  · exact .related ⟨hperm.filterMap _, rfl⟩

theorem buildTarget_sameTarget {group group' : TargetGroup} {address : String}
    (h : Agree Alike (applyAll deps (seedLabels job group address) job.relabelConfigs)
      (applyAll deps (seedLabels job group' address) job.relabelConfigs)) :
    Agree SameTarget
      (buildTarget deps job global externalLabels trackStaleness group address)
      (buildTarget deps job global externalLabels trackStaleness group' address) := by
  rw [buildTarget, buildTarget, process, process]
  generalize applyAll deps (seedLabels job group address) job.relabelConfigs = x at h
  generalize applyAll deps (seedLabels job group' address) job.relabelConfigs = y at h
  cases h with
  | failed fault => exact .failed fault
  | dropped => exact .dropped
  | related hset =>
      exact targetOf_sameTarget (hset.unique.filter _) hset.filter_perm

/-- The same failure, or the same targets in order. -/
inductive SameTargets {E : Engine} :
    Except Fault (List (Target E)) → Except Fault (List (Target E)) → Prop where
  | failed (fault : Fault) : SameTargets (.error fault) (.error fault)
  | built {targets targets' : List (Target E)} (h : List.Forall₂ SameTarget targets targets') :
      SameTargets (.ok targets) (.ok targets')

/-- Addresses that are built alike one by one are built alike. -/
theorem sameTargets_of_forall {α : Type} {E : Engine} {f g : α → Except Fault (Option (Target E))}
    {l : List α} (h : ∀ a ∈ l, Agree SameTarget (f a) (g a)) :
    SameTargets ((l.mapM f).map (·.filterMap id)) ((l.mapM g).map (·.filterMap id)) := by
  induction l with
  | nil => exact .built .nil
  | cons a rest ih =>
      obtain ⟨hfirst, hrest⟩ := List.forall_mem_cons.mp h
      have ih := ih hrest
      rw [List.mapM_cons, List.mapM_cons]
      generalize f a = x at hfirst
      generalize g a = y at hfirst
      cases hfirst with
      | failed fault => exact .failed fault
      | dropped =>
          -- the address adds nothing
          cases hf : rest.mapM f <;> cases hg : rest.mapM g <;> rw [hf, hg] at ih <;> exact ih
      | related htarget =>
          cases hf : rest.mapM f <;> cases hg : rest.mapM g <;> rw [hf, hg] at ih <;> cases ih
          · exact .failed _
          · next hrest => exact .built (.cons htarget hrest)

/-- What makes an address of a group independent of the group's empty labels. -/
structure EmptyIsMissing (deps : RelabelDeps) (job : ScrapeConfig deps.engine) (group : TargetGroup)
    (address : String) : Prop where
  unblocked : DefaultsUnblocked job group
  captures : LabelMapsAgree deps (seedLabels job group address)
    (seedLabels job group.withoutEmpty address) job.relabelConfigs

/-- The working labels agree before relabeling and after every rule exactly then. -/
theorem emptyIsMissing_iff {group : TargetGroup} {address : String} :
    EmptyIsMissing deps job group address ↔
      ∀ n, Agree Alike (applyAll deps (seedLabels job group address) (job.relabelConfigs.take n))
        (applyAll deps (seedLabels job group.withoutEmpty address) (job.relabelConfigs.take n)) := by
  constructor
  · intro h
    exact (labelMapsAgree_iff ((alike_seedLabels_iff address).mpr h.unblocked) _).mp h.captures
  · intro hall
    have hseed : Alike (seedLabels job group address) (seedLabels job group.withoutEmpty address) := by
      cases hall 0 with
      | related hseed => exact hseed
    exact ⟨(alike_seedLabels_iff address).mp hseed, (labelMapsAgree_iff hseed _).mpr hall⟩

/-- **When the empty labels of discovered groups count as missing.** The labels of an address agree
before relabeling and after every rule exactly when no empty label blocks a default and the captured
labels agree at every `labelmap` rule; and where that is so for all addresses, the job gets the same
targets. -/
theorem buildTargets_withoutEmpty (groups : List TargetGroup) :
    ((∀ group ∈ groups, ∀ address ∈ group.targets, EmptyIsMissing deps job group address) →
      SameTargets (buildTargets deps job global externalLabels trackStaleness groups)
        (buildTargets deps job global externalLabels trackStaleness
          (groups.map TargetGroup.withoutEmpty))) ∧
    ∀ group address, EmptyIsMissing deps job group address ↔
      ∀ n, Agree Alike (applyAll deps (seedLabels job group address) (job.relabelConfigs.take n))
        (applyAll deps (seedLabels job group.withoutEmpty address)
          (job.relabelConfigs.take n)) := by
  refine ⟨fun h => ?_, fun _ _ => emptyIsMissing_iff⟩
  have hentries : (groups.map TargetGroup.withoutEmpty).flatMap
        (fun group => group.targets.map (group, ·)) =
      (groups.flatMap fun group => group.targets.map (group, ·)).map
        fun entry => (entry.1.withoutEmpty, entry.2) := by
    rw [List.flatMap_map, List.map_flatMap]
    simp only [List.map_map]
    rfl
  rw [buildTargets, buildTargets, hentries, List.mapM_map]
  refine sameTargets_of_forall fun entry hentry => buildTarget_sameTarget ?_
  obtain ⟨group, hgroup, hentry⟩ := List.mem_flatMap.mp hentry
  obtain ⟨address, haddress, rfl⟩ := List.mem_map.mp hentry
  have hall := emptyIsMissing_iff.mp (h group hgroup address haddress) job.relabelConfigs.length
  rwa [List.take_length] at hall

end

theorem map_url_eq {E : Engine} {targets targets' : List (Target E)}
    (h : List.Forall₂ SameTarget targets targets') :
    targets.map Target.url = targets'.map Target.url := by
  induction h with
  | nil => rfl
  | cons hfirst _ ih => rw [List.map_cons, List.map_cons, congrArg Target.url hfirst.rest, ih]

/-- A group with one address, whose label `name` is set to nothing. -/
def emptyGroup (name : String) : TargetGroup where
  targets := ["h:1"]
  labels := { entries := [(name, "")], sorted := List.pairwise_singleton _ _ }

def schemeJob : ScrapeConfig fragmentDeps.engine where
  jobName := "node"

/-- An empty label with no default. -/
theorem buildTargets_withoutEmpty_zone :
    SameTargets (buildTargets fragmentDeps schemeJob {} [] false [emptyGroup "zone"])
      (buildTargets fragmentDeps schemeJob {} [] false [(emptyGroup "zone").withoutEmpty]) := by
  refine (buildTargets_withoutEmpty [emptyGroup "zone"]).1 fun group hgroup address _ => ⟨?_, trivial⟩
  rw [List.mem_singleton.mp hgroup]
  intro name hname _
  rw [(Prod.mk.inj (List.mem_singleton.mp hname)).1]
  decide

/-- **An empty `__scheme__` leaves the URL without a scheme**, although one is configured. -/
theorem emptyScheme_blocks_default :
    ¬ ∀ (job : ScrapeConfig fragmentDeps.engine) (global : GlobalConfig) (groups : List TargetGroup),
      SameTargets (buildTargets fragmentDeps job global [] false groups)
        (buildTargets fragmentDeps job global [] false (groups.map TargetGroup.withoutEmpty)) := by
  intro h
  have hsame := h schemeJob {} [emptyGroup "__scheme__"]
  obtain ⟨targets, hbuilt, hurl⟩ := Fallible.exists_ok_of_any
    (x := buildTargets fragmentDeps schemeJob {} [] false [emptyGroup "__scheme__"])
    (p := fun targets => decide (targets.map Target.url = ["://h:1/metrics"])) (by decide +kernel)
  obtain ⟨targets', hbuilt', hurl'⟩ := Fallible.exists_ok_of_any
    (x := buildTargets fragmentDeps schemeJob {} [] false
      ([emptyGroup "__scheme__"].map TargetGroup.withoutEmpty))
    (p := fun targets => decide (targets.map Target.url = ["http://h:1/metrics"]))
    (by decide +kernel)
  rw [hbuilt, hbuilt'] at hsame
  cases hsame with
  | built hrel =>
      have hurls := map_url_eq hrel
      rw [of_decide_eq_true hurl, of_decide_eq_true hurl'] at hurls
      exact absurd hurls (by decide)

end PromScrape
