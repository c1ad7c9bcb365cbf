import PromScrape.Proofs.Relabel
import PromScrape.Proofs.Targets

set_option autoImplicit false

/-! # Which parameters of a job reach the request

A job's parameters travel as `__param_` labels. A label has one value, and labels without a value are
dropped by relabeling, so a list of values arrives exactly when it is empty or one nonempty value. -/

namespace PromScrape

open Fallible (map_eq_ok)
open Regex (Engine)

/-! ## Parameters -/

/-- The values of one parameter, in order. -/
def paramValues (params : List (String × String)) (name : String) : List String :=
  (params.filter fun p => p.1 = name).map Prod.snd

/-- Name and value pairs from the values that `f` gives to each entry. -/
def paramPairs (f : String × List String → List String) (entries : List (String × List String)) :
    List (String × String) :=
  entries.flatMap fun entry => (f entry).map (entry.1, ·)

/-- The parameters of a job. -/
def jobParams {E : Engine} (job : ScrapeConfig E) : List (String × String) :=
  paramPairs Prod.snd job.params.entries

theorem paramValues_append (params params' : List (String × String)) (name : String) :
    paramValues (params ++ params') name = paramValues params name ++ paramValues params' name := by
  rw [paramValues, List.filter_append, List.map_append]
  rfl

theorem paramValues_map (name name' : String) (values : List String) :
    paramValues (values.map (name', ·)) name = if name' = name then values else [] := by
  rw [paramValues, List.filter_map]
  by_cases h : name' = name <;> simp [h]

section

variable {f g : String × List String → List String} {entries : List (String × List String)}
  {entry : String × List String} {name : String}

theorem paramValues_paramPairs_of_not_mem (h : name ∉ entries.map Prod.fst) :
    paramValues (paramPairs f entries) name = [] := by
  induction entries with
  | nil => rfl
  | cons entry rest ih =>
      rw [List.map_cons, List.mem_cons, not_or] at h
      rw [paramPairs, List.flatMap_cons, paramValues_append, paramValues_map, if_neg (Ne.symm h.1)]
      exact ih h.2

theorem paramValues_paramPairs (hnodup : (entries.map Prod.fst).Nodup) (h : entry ∈ entries) :
    paramValues (paramPairs f entries) entry.1 = f entry := by
  induction entries with
  | nil => cases h
  | cons first rest ih =>
      obtain ⟨hfresh, hnodup⟩ := List.nodup_cons.mp hnodup
      rw [paramPairs, List.flatMap_cons, paramValues_append, paramValues_map]
      rcases List.mem_cons.mp h with rfl | hrest
      · rw [if_pos rfl]
        have hnone := paramValues_paramPairs_of_not_mem (f := f) hfresh
        rw [paramPairs] at hnone
        rw [hnone, List.append_nil]
      · have hne : first.1 ≠ entry.1 := fun heq =>
          hfresh (heq ▸ List.mem_map_of_mem hrest)
        rw [if_neg hne]
        exact ih hnodup hrest

/-- Two choices of values agree on every name when they agree on every entry. -/
theorem paramValues_congr_iff (hnodup : (entries.map Prod.fst).Nodup) :
    (∀ name, paramValues (paramPairs f entries) name = paramValues (paramPairs g entries) name) ↔
      ∀ entry ∈ entries, f entry = g entry := by
  constructor
  · intro h entry hentry
    have hname := h entry.1
    rwa [paramValues_paramPairs hnodup hentry, paramValues_paramPairs hnodup hentry] at hname
  · intro h name
    by_cases hname : name ∈ entries.map Prod.fst
    · obtain ⟨entry, hentry, rfl⟩ := List.mem_map.mp hname
      rw [paramValues_paramPairs hnodup hentry, paramValues_paramPairs hnodup hentry,
        h entry hentry]
    · rw [paramValues_paramPairs_of_not_mem hname, paramValues_paramPairs_of_not_mem hname]

end

/-! ## Parameter labels -/

/-- Whether `name` is that of a parameter label. -/
def isParamName (name : String) : Bool := startsWith name "__param_"

/-- The labels that become parameters. -/
def paramLabels (labels : List Label) : List Label := labels.filter fun l => isParamName l.name

theorem stripPrefix_append (lit rest : String) : stripPrefix (lit ++ rest) lit = some rest := by
  rw [stripPrefix_eq_some, String.toList_append]

theorem isParamName_append (name : String) : isParamName ("__param_" ++ name) = true := by
  rw [isParamName, startsWith, stripPrefix_append]
  rfl

section

variable {labels : List Label} {name value : String}

theorem paramLabels_addIfAbsent (h : isParamName name = false) :
    paramLabels (addIfAbsent labels name value) = paramLabels labels := by
  rw [addIfAbsent]
  split
  · rfl
  · simp [paramLabels, List.filter_append, h]

theorem paramLabels_setLabel (h : isParamName name = false) :
    paramLabels (setLabel labels name value) = paramLabels labels := by
  induction labels with
  | nil => simp [setLabel, LabelSet.set, paramLabels, h]
  | cons label rest ih =>
      rw [setLabel] at ih ⊢
      rw [LabelSet.set]
      by_cases heq : label.name = name
      · rw [if_pos (beq_iff_eq.mpr heq)]
        simp [paramLabels, heq, h]
      · rw [if_neg (by simpa using heq)]
        simp only [paramLabels, List.filter_cons] at ih ⊢
        rw [ih]

/-- Only parameter labels matter for the parameters. -/
theorem paramsOf_paramLabels (labels : List Label) : paramsOf (paramLabels labels) = paramsOf labels := by
  rw [paramsOf, paramsOf, paramLabels, List.filterMap_filter]
  refine List.filterMap_congr fun label _ => ?_
  cases hstrip : stripPrefix label.name "__param_" with
  | none => simp
  | some rest => simp [isParamName, startsWith, hstrip]

end

/-! ## From the job to the labels -/

/-- The label of one parameter. -/
def seedParam (entry : String × List String) : List Label :=
  match entry.2.head? with
  | some first => [⟨"__param_" ++ entry.1, first⟩]
  | none => []

/-- The values of one parameter that arrive. -/
def sentValues (entry : String × List String) : List String :=
  match entry.2.head? with
  | some first => if first.isEmpty then [] else [first]
  | none => []

theorem mem_seedParam {entry : String × List String} {label : Label} (h : label ∈ seedParam entry) :
    label.name = "__param_" ++ entry.1 := by
  unfold seedParam at h
  split at h
  · rw [List.mem_singleton] at h
    rw [h]
  · cases h

/-- A label of a new parameter's name would be one of the parameters before it. -/
theorem paramName_absent {entries : List (String × List String)} {labels : List Label}
    {name : String} (h : paramLabels labels = entries.flatMap seedParam)
    (hfresh : name ∉ entries.map Prod.fst) :
    labels.any (·.name == "__param_" ++ name) = false := by
  rw [List.any_eq_false]
  intro label hlabel hname
  have hname : label.name = "__param_" ++ name := beq_iff_eq.mp hname
  have hparam : label ∈ paramLabels labels := by
    refine List.mem_filter.mpr ⟨hlabel, ?_⟩
    rw [hname]
    exact isParamName_append _
  rw [h, List.mem_flatMap] at hparam
  obtain ⟨other, hother, hmem⟩ := hparam
  rw [mem_seedParam hmem] at hname
  have hsame : other.1 = name := by
    have hlist := congrArg String.toList hname
    rw [String.toList_append, String.toList_append] at hlist
    exact String.toList_inj.mp (List.append_cancel_left hlist)
  rw [← hsame] at hfresh
  exact hfresh (List.mem_map_of_mem hother)

theorem paramLabels_foldl {entries : List (String × List String)}
    (hnodup : (entries.map Prod.fst).Nodup) {labels : List Label} (h : paramLabels labels = []) :
    paramLabels (entries.foldl (fun labels param =>
      match param.2.head? with
      | some first => addIfAbsent labels ("__param_" ++ param.1) first
      | none => labels) labels) = entries.flatMap seedParam := by
  induction entries using List.reverseRecOn with
  | nil => exact h
  | append_singleton init entry ih =>
      rw [List.map_append, List.map_singleton, List.nodup_append] at hnodup
      obtain ⟨hinit, -, hfresh⟩ := hnodup
      rw [List.foldl_append, List.flatMap_append, List.flatMap_singleton, ← ih hinit]
      generalize hlabels : init.foldl _ labels = before
      have hbefore : paramLabels before = init.flatMap seedParam := by
        rw [← hlabels, ih hinit]
      show paramLabels (match entry.2.head? with
        | some first => addIfAbsent before ("__param_" ++ entry.1) first
        | none => before) = _
      unfold seedParam
      cases entry.2.head? with
      | none => exact (List.append_nil _).symm
      | some first =>
          have habsent := paramName_absent hbefore fun hmem =>
            hfresh entry.1 hmem _ (List.mem_singleton_self _) rfl
          show paramLabels (addIfAbsent before _ first) = _
          rw [addIfAbsent, habsent, if_neg Bool.false_ne_true, paramLabels, List.filter_append]
          simp [paramLabels, isParamName_append]

section

variable {E : Engine} {job : ScrapeConfig E} {group : TargetGroup}

/-- Without parameter labels in the group, those of an address are the job's. -/
theorem paramLabels_seedLabels (hgroup : ∀ entry ∈ group.labels.entries, isParamName entry.1 = false)
    (address : String) :
    paramLabels (seedLabels job group address) = job.params.entries.flatMap seedParam := by
  refine paramLabels_foldl job.params.nodup ?_
  rw [paramLabels_addIfAbsent (by decide), paramLabels_addIfAbsent (by decide),
    paramLabels_addIfAbsent (by decide)]
  have hentries : ∀ entry ∈ group.labels.entries.filter (·.1 ≠ "__address__"),
      isParamName entry.1 = false := fun entry hentry =>
    hgroup entry (List.mem_filter.mp hentry).1
  generalize group.labels.entries.filter (·.1 ≠ "__address__") = entries at hentries
  induction entries using List.reverseRecOn with
  | nil =>
      have haddress : isParamName "__address__" = false := by decide
      show paramLabels [⟨"__address__", address⟩] = []
      simp [paramLabels, haddress]
  | append_singleton init entry ih =>
      rw [List.foldl_append]
      show paramLabels (setLabel _ entry.1 entry.2) = []
      rw [paramLabels_setLabel (hentries entry (by simp))]
      exact ih fun other hother => hentries other (List.mem_append_left _ hother)

end

/-! ## Through relabeling -/

/-- No rule of the run from `set` changes a parameter label. -/
def ParamsUntouched (deps : RelabelDeps) : LabelSet → List (RelabelConfig deps.engine) → Prop
  | _, [] => True
  | set, config :: rest =>
      ∀ set', apply deps set config = .ok (some set') →
        paramLabels set' = paramLabels set ∧ ParamsUntouched deps set' rest

theorem paramLabels_applyAll {deps : RelabelDeps} {configs : List (RelabelConfig deps.engine)}
    {set set' : LabelSet} (h : ParamsUntouched deps set configs)
    (hok : applyAll deps set configs = .ok (some set')) : paramLabels set' = paramLabels set := by
  induction configs generalizing set with
  | nil =>
      cases hok
      rfl
  | cons config rest ih =>
      rw [applyAll] at hok
      split at hok
      · next set₁ hstep =>
          obtain ⟨hsame, hrest⟩ := h set₁ hstep
          rw [ih hrest hok, hsame]
      · cases hok
      · cases hok

theorem process_eq_some {deps : RelabelDeps} {configs : List (RelabelConfig deps.engine)}
    {labels labels' : List Label} (hok : process deps labels configs = .ok (some labels')) :
    ∃ set, applyAll deps labels configs = .ok (some set) ∧
      labels' = set.filter fun label => !label.value.isEmpty := by
  rw [process] at hok
  split at hok
  · next set hset =>
      cases hok
      exact ⟨set, hset, rfl⟩
  · cases hok
  · cases hok

theorem targetOf_params {E : Engine} {job : ScrapeConfig E} {global : GlobalConfig}
    {externalLabels : List Label} {trackStaleness : Bool} {labels : List Label} {target : Target E}
    (h : targetOf job global externalLabels trackStaleness labels = some target) :
    target.params = paramsOf labels := by
  rw [targetOf] at h
  split at h
  · cases h
  · cases h
    rfl

/-- What a target makes of the job's parameter labels. -/
theorem paramsOf_seedParams (entries : List (String × List String)) :
    paramsOf ((entries.flatMap seedParam).filter fun label => !label.value.isEmpty) =
      paramPairs sentValues entries := by
  induction entries with
  | nil => rfl
  | cons entry rest ih =>
      rw [List.flatMap_cons, List.filter_append, paramsOf, List.filterMap_append, paramPairs,
        List.flatMap_cons]
      rw [paramsOf, paramPairs] at ih
      rw [ih]
      congr 1
      unfold seedParam sentValues
      cases entry.2.head? with
      | none => rfl
      | some first =>
          by_cases hempty : first.isEmpty = true
          · simp [hempty]
          · simp [hempty, stripPrefix_append]

theorem sentValues_eq_iff (entry : String × List String) :
    sentValues entry = entry.2 ↔ entry.2.length ≤ 1 ∧ "" ∉ entry.2 := by
  unfold sentValues
  cases entry.2 with
  | nil => simp
  | cons first rest =>
      by_cases hempty : first.isEmpty = true
      · have hfirst : first = "" := String.isEmpty_iff.mp hempty
        simp [hfirst]
      · have hfirst : "" ≠ first := fun heq => hempty (by rw [← heq]; rfl)
        cases rest with
        | nil => simp [hempty, hfirst]
        | cons second rest => simp [hempty]

/-- **All parameters of a job reach the target exactly when each has at most one value, and no empty
one**, if neither discovery nor relabeling touches a parameter label. -/
theorem buildTarget_params_iff {deps : RelabelDeps} {job : ScrapeConfig deps.engine}
    {global : GlobalConfig} {externalLabels : List Label} {trackStaleness : Bool}
    {group : TargetGroup} {address : String} {target : Target deps.engine}
    (hgroup : ∀ entry ∈ group.labels.entries, isParamName entry.1 = false)
    (hrules : ParamsUntouched deps (seedLabels job group address) job.relabelConfigs)
    (hok : buildTarget deps job global externalLabels trackStaleness group address =
      .ok (some target)) :
    (∀ name, paramValues target.params name = paramValues (jobParams job) name) ↔
      ∀ entry ∈ job.params.entries, entry.2.length ≤ 1 ∧ "" ∉ entry.2 := by
  obtain ⟨processed, hprocess, htarget⟩ := map_eq_ok.mp hok
  cases processed with
  | none => cases htarget
  | some labels =>
      obtain ⟨set, hset, rfl⟩ := process_eq_some hprocess
      have hparams : target.params = paramPairs sentValues job.params.entries := by
        have htarget : targetOf job global externalLabels trackStaleness _ = some target := htarget
        rw [targetOf_params htarget, ← paramsOf_paramLabels, ← paramsOf_seedParams,
          ← paramLabels_seedLabels hgroup address, ← paramLabels_applyAll hrules hset, paramLabels,
          paramLabels, List.filter_comm]
      rw [hparams, jobParams, paramValues_congr_iff job.params.nodup]
      exact forall₂_congr fun entry _ => sentValues_eq_iff entry

/-- The parameter of the configuration documentation, with two values. -/
def collectJob : ScrapeConfig fragmentDeps.engine where
  jobName := "node"
  params := { entries := [("collect[]", ["cpu", "meminfo"])] }

/-- **One value arrives**, although nothing touches the label. -/
theorem collectJob_losesValue : ∃ target,
    buildTarget fragmentDeps collectJob {} [] false ⟨["h:1"], .empty⟩ "h:1" = .ok (some target) ∧
      ParamsUntouched fragmentDeps (seedLabels collectJob ⟨["h:1"], .empty⟩ "h:1") [] ∧
      paramValues target.params "collect[]" = ["cpu"] ∧
      paramValues (jobParams collectJob) "collect[]" = ["cpu", "meminfo"] := by
  obtain ⟨target, htarget, hcheck⟩ := Fallible.exists_ok_of_any
    (x := buildTarget fragmentDeps collectJob {} [] false ⟨["h:1"], .empty⟩ "h:1")
    (p := fun target => target.any fun target =>
      decide (paramValues target.params "collect[]" = ["cpu"])) (by decide +kernel)
  cases target with
  | none => cases hcheck
  | some target => exact ⟨target, htarget, trivial, of_decide_eq_true hcheck, by decide +kernel⟩

theorem buildTarget_params_iff_collectJob : ∃ target,
    buildTarget fragmentDeps collectJob {} [] false ⟨["h:1"], .empty⟩ "h:1" = .ok (some target) ∧
      ((∀ name, paramValues target.params name = paramValues (jobParams collectJob) name) ↔
        ∀ entry ∈ collectJob.params.entries, entry.2.length ≤ 1 ∧ "" ∉ entry.2) := by
  obtain ⟨target, htarget, hcheck⟩ := Fallible.exists_ok_of_any
    (x := buildTarget fragmentDeps collectJob {} [] false ⟨["h:1"], .empty⟩ "h:1")
    (p := Option.isSome) (by decide +kernel)
  cases target with
  | none => cases hcheck
  | some target =>
      have hgroup : ∀ entry ∈ StringMap.empty.entries, isParamName entry.1 = false := by decide
      exact ⟨target, htarget, buildTarget_params_iff hgroup trivial htarget⟩

end PromScrape
