import PromScrape.Library.Lockstep
import PromScrape.Proofs.Relabel
import PromScrape.Proofs.LabelNames

set_option autoImplicit false

/-! # The order of an exporter's labels

Every operation of the label pipeline takes lists that differ in their order to lists that differ in
their order, except `labelmap`: where several captured labels expand to one name, the last of them in
the list gives the value. Followed through two runs side by side, that is the only place where the
order gets into a label set. -/

namespace PromScrape

open Regex (fragmentEngine)

variable {set set' raw raw' labels labels' : List Label}

/-! ## Operations that forget the order -/

theorem get_perm (h : UniqueNames set) (hperm : set.Perm set') (name : String) :
    LabelSet.get set name = LabelSet.get set' name := by
  rw [LabelSet.get, LabelSet.get, Keyed.Unique.find?_perm h hperm]

theorem join_perm (h : UniqueNames set) (hperm : set.Perm set') (sourceLabels : List String)
    (separator : String) :
    LabelSet.join set sourceLabels separator = LabelSet.join set' sourceLabels separator := by
  rw [LabelSet.join, LabelSet.join]
  congr 1
  exact List.map_congr_left fun name _ => get_perm h hperm name

theorem set_perm (h : UniqueNames set) (hperm : set.Perm set') (name value : String) :
    (LabelSet.set set name value).Perm (LabelSet.set set' name value) := by
  rw [set_eq_upsert, set_eq_upsert]
  exact Keyed.Unique.upsert_perm h hperm _

theorem addIfAbsent_perm (h : UniqueNames labels) (hperm : labels.Perm labels')
    (name value : String) :
    (addIfAbsent labels name value).Perm (addIfAbsent labels' name value) := by
  rw [addIfAbsent_eq_insertIfAbsent, addIfAbsent_eq_insertIfAbsent]
  exact Keyed.Unique.insertIfAbsent_perm h hperm _

theorem mergeTargetLabel_perm (h : UniqueNames labels) (hperm : labels.Perm labels')
    (honorLabels : Bool) (t : Label) :
    (mergeTargetLabel honorLabels labels t).Perm (mergeTargetLabel honorLabels labels' t) := by
  cases honorLabels with
  | true => exact addIfAbsent_perm h hperm t.name t.value
  | false =>
      rw [mergeTargetLabel, mergeTargetLabel, if_neg Bool.false_ne_true, if_neg Bool.false_ne_true,
        ← Keyed.Unique.find?_perm h hperm]
      cases labels.find? (fun label => label.name == t.name) with
      | none => exact hperm.append_right [t]
      | some existing => exact set_perm (h.set _ _) (set_perm h hperm _ _) _ _

theorem mergeTargetLabels_perm (h : UniqueNames labels) (hperm : labels.Perm labels')
    (targetLabels : List Label) (honorLabels : Bool) :
    (mergeTargetLabels labels targetLabels honorLabels).Perm
      (mergeTargetLabels labels' targetLabels honorLabels) := by
  induction targetLabels generalizing labels labels' with
  | nil => exact hperm
  | cons t rest ih =>
      exact ih (h.mergeTargetLabel honorLabels t) (mergeTargetLabel_perm h hperm honorLabels t)

theorem addExternalLabels_perm (h : UniqueNames labels) (hperm : labels.Perm labels')
    (externalLabels : List Label) :
    (addExternalLabels labels externalLabels).Perm (addExternalLabels labels' externalLabels) := by
  induction externalLabels generalizing labels labels' with
  | nil => exact hperm
  | cons e rest ih =>
      exact ih (h.addIfAbsent e.name e.value) (addIfAbsent_perm h hperm e.name e.value)

theorem sortLabels_eq_of_perm (h : UniqueNames labels) (hperm : labels.Perm labels') :
    sortLabels labels = sortLabels labels' := Keyed.Unique.insertionSort_perm h hperm

/-! ## One rule -/

/-- The same result but for the order of the labels. -/
def SameOutcome : Except Fault (Option LabelSet) → Except Fault (Option LabelSet) → Prop
  | .error fault, .error fault' => fault = fault'
  | .ok none, .ok none => True
  | .ok (some set), .ok (some set') => set.Perm set'
  | _, _ => False

theorem sameOutcome_cases {x y : Except Fault (Option LabelSet)} (h : SameOutcome x y) :
    (∃ fault, x = .error fault ∧ y = .error fault) ∨ (x = .ok none ∧ y = .ok none) ∨
      ∃ set set', x = .ok (some set) ∧ y = .ok (some set') ∧ set.Perm set' := by
  match x, y, h with
  | .error fault, .error _, h =>
      cases h
      exact .inl ⟨fault, rfl, rfl⟩
  | .ok none, .ok none, _ => exact .inr (.inl ⟨rfl, rfl⟩)
  | .ok (some set), .ok (some set'), h => exact .inr (.inr ⟨set, set', rfl, rfl, h⟩)

/-- In both sets the same label is captured last for each name that captured labels expand to. -/
def SameLast {deps : RelabelDeps} (set set' : LabelSet) (config : RelabelConfig deps.engine) : Prop :=
  ∀ name, Keyed.lastWith Label.name (labelMapUpdates set config) name =
    Keyed.lastWith Label.name (labelMapUpdates set' config) name

/-- No two captured labels with different values expand to one name. -/
def Apart {deps : RelabelDeps} (set : LabelSet) (config : RelabelConfig deps.engine) : Prop :=
  ∀ u ∈ labelMapUpdates set config, ∀ v ∈ labelMapUpdates set config, u.name = v.name → u = v

theorem Apart.sameLast {deps : RelabelDeps} {config : RelabelConfig deps.engine}
    (h : Apart set config) (hperm : set.Perm set') : SameLast set set' config :=
  fun _ => Keyed.lastWith_perm h (hperm.filterMap _)

theorem Effect.sameOutcome (effect : Effect) (h : UniqueNames set) (hperm : set.Perm set') :
    SameOutcome (effect.run set) (effect.run set') := by
  cases effect with
  | abort fault => rfl
  | drop => trivial
  | same => exact hperm
  | filter p => exact hperm.filter p
  | set name value => exact set_perm h hperm name value

/-- **Only `labelmap` can tell two orders apart**, and it does exactly when some name is captured last
    from different labels. -/
theorem apply_sameOutcome_iff (deps : RelabelDeps) (config : RelabelConfig deps.engine)
    (h : UniqueNames set) (hperm : set.Perm set') :
    SameOutcome (apply deps set config) (apply deps set' config) ↔
      (config.action = .labelMap → SameLast set set' config) := by
  by_cases haction : config.action = .labelMap
  · have hupdates : (labelMapUpdates set config).Perm (labelMapUpdates set' config) :=
      hperm.filterMap _
    rw [apply_labelMap deps set haction, apply_labelMap deps set' haction, labelMap_eq_upsertAll,
      labelMap_eq_upsertAll, SameOutcome, Keyed.Unique.upsertAll_perm_iff h hperm hupdates]
    constructor
    · intro hlast _
      exact hlast
    · intro hlast
      exact hlast haction
  · obtain ⟨effect, heffect⟩ := apply_effect deps set haction
    rw [heffect set rfl rfl, heffect set' (join_perm h hperm _ _).symm (get_perm h hperm _).symm]
    exact iff_of_true (effect.sameOutcome h hperm) (fun hmap => absurd hmap haction)

/-! ## All rules -/

/-- `SameLast` at every `labelmap` rule that two runs reach. -/
def SameLasts (deps : RelabelDeps) :
    LabelSet → LabelSet → List (RelabelConfig deps.engine) → Prop
  | _, _, [] => True
  | set, set', config :: rest =>
      (config.action = .labelMap → SameLast set set' config) ∧
        match apply deps set config, apply deps set' config with
        | .ok (some next), .ok (some next') => SameLasts deps next next' rest
        | _, _ => True

theorem applyAll_eq_run {deps : RelabelDeps} (set : LabelSet)
    (configs : List (RelabelConfig deps.engine)) :
    applyAll deps set configs = Lockstep.run (apply deps) set configs := by
  induction configs generalizing set with
  | nil => rfl
  | cons config rest ih =>
      rw [applyAll, Lockstep.run]
      rcases apply deps set config with fault | _ | next
      · rfl
      · rfl
      · exact ih next

theorem sameLasts_iff_atEach (deps : RelabelDeps) (configs : List (RelabelConfig deps.engine))
    (set set' : LabelSet) :
    SameLasts deps set set' configs ↔ Lockstep.AtEach (apply deps) (apply deps)
      (fun set set' config => config.action = .labelMap → SameLast set set' config) set set'
      configs := by
  induction configs generalizing set set' with
  | nil => rfl
  | cons config rest ih =>
      rw [SameLasts, Lockstep.AtEach]
      refine and_congr_right' ?_
      split
      · next hx hy =>
          rw [ih]
          constructor
          · intro hrest s t hs ht
            cases hx.symm.trans hs
            cases hy.symm.trans ht
            exact hrest
          · intro hrest
            exact hrest _ _ hx hy
      · next hneither => exact iff_of_true trivial fun s t hs ht => (hneither s t hs ht).elim

theorem agree_iff_sameOutcome {x y : Except Fault (Option LabelSet)}
    (hx : ∀ next, x = .ok (some next) → UniqueNames next) :
    Lockstep.Agree (fun s t => UniqueNames s ∧ s.Perm t) x y ↔ SameOutcome x y := by
  constructor
  · intro hagree
    cases hagree with
    | failed fault => rfl
    | dropped => trivial
    | related hst => exact hst.2
  · intro hsame
    rcases sameOutcome_cases hsame with ⟨fault, rfl, rfl⟩ | ⟨rfl, rfl⟩ | ⟨s, t, rfl, rfl, hst⟩
    · exact .failed fault
    · exact .dropped
    · exact .related ⟨hx s rfl, hst⟩

/-- **Two runs have the same labels after every rule exactly when the condition holds at every
    `labelmap` rule.** -/
theorem sameLasts_iff (deps : RelabelDeps) (configs : List (RelabelConfig deps.engine))
    (h : UniqueNames set) (hperm : set.Perm set') :
    SameLasts deps set set' configs ↔
      ∀ n, SameOutcome (applyAll deps set (configs.take n)) (applyAll deps set' (configs.take n)) := by
  have hstep : ∀ (s t : LabelSet) (config : RelabelConfig deps.engine), UniqueNames s ∧ s.Perm t →
      (Lockstep.Agree (fun s t => UniqueNames s ∧ s.Perm t) (apply deps s config)
          (apply deps t config) ↔ (config.action = .labelMap → SameLast s t config)) := by
    intro s t config hst
    rw [← apply_sameOutcome_iff deps config hst.1 hst.2]
    exact agree_iff_sameOutcome fun next hnext => hst.1.apply hnext
  rw [sameLasts_iff_atEach, Lockstep.atEach_iff hstep configs ⟨h, hperm⟩]
  refine forall_congr' fun n => ?_
  rw [← applyAll_eq_run, ← applyAll_eq_run]
  exact agree_iff_sameOutcome fun next hnext => h.applyAll hnext

/-- Without `labelmap` no order is told apart. -/
theorem sameLasts_of_no_labelMap (deps : RelabelDeps) {configs : List (RelabelConfig deps.engine)}
    (hconfigs : ∀ config ∈ configs, config.action ≠ .labelMap) (set set' : LabelSet) :
    SameLasts deps set set' configs := by
  induction configs generalizing set set' with
  | nil => trivial
  | cons config rest ih =>
      obtain ⟨hconfig, hrest⟩ := List.forall_mem_cons.mp hconfigs
      refine ⟨fun hmap => absurd hmap hconfig, ?_⟩
      split
      · exact ih hrest _ _
      · trivial

/-! ## The pipeline -/

theorem finalizeSeriesLabels_eq_of_sameOutcome {deps : RelabelDeps} {target : Target deps.engine}
    (h : UniqueNames raw)
    (hsame : SameOutcome
      (applyAll deps (mergeTargetLabels raw target.labels target.honorLabels)
        target.metricRelabelConfigs)
      (applyAll deps (mergeTargetLabels raw' target.labels target.honorLabels)
        target.metricRelabelConfigs)) :
    finalizeSeriesLabels deps raw target = finalizeSeriesLabels deps raw' target := by
  have hmerged := h.mergeTargetLabels target.labels target.honorLabels
  rw [finalizeSeriesLabels, finalizeSeriesLabels, process, process]
  rcases sameOutcome_cases hsame with ⟨fault, hx, hy⟩ | ⟨hx, hy⟩ | ⟨final, final', hx, hy, hfinal⟩
  · rw [hx, hy]
  · rw [hx, hy]
  · rw [hx, hy]
    have hkept := (hmerged.applyAll hx).filter (fun label => !label.value.isEmpty)
    have hperm := addExternalLabels_perm hkept (hfinal.filter _) target.externalLabels
    dsimp only
    rw [sortLabels_eq_of_perm (hkept.addExternalLabels target.externalLabels) hperm]

/-- **When the order of an exporter's labels is irrelevant.** The working label sets of two orders
    agree after every rule exactly when no `labelmap` rule finds another label captured last; and then
    both are dropped or get one final label set. -/
theorem finalizeSeriesLabels_perm {deps : RelabelDeps} {target : Target deps.engine}
    (hraw : UniqueNames raw) (hperm : raw.Perm raw') :
    (SameLasts deps (mergeTargetLabels raw target.labels target.honorLabels)
        (mergeTargetLabels raw' target.labels target.honorLabels) target.metricRelabelConfigs →
      finalizeSeriesLabels deps raw target = finalizeSeriesLabels deps raw' target) ∧
    (SameLasts deps (mergeTargetLabels raw target.labels target.honorLabels)
        (mergeTargetLabels raw' target.labels target.honorLabels) target.metricRelabelConfigs ↔
      ∀ n, SameOutcome
        (applyAll deps (mergeTargetLabels raw target.labels target.honorLabels)
          (target.metricRelabelConfigs.take n))
        (applyAll deps (mergeTargetLabels raw' target.labels target.honorLabels)
          (target.metricRelabelConfigs.take n))) := by
  have hmerged := hraw.mergeTargetLabels target.labels target.honorLabels
  have hmperm := mergeTargetLabels_perm hraw hperm target.labels target.honorLabels
  have hiff := sameLasts_iff deps target.metricRelabelConfigs hmerged hmperm
  refine ⟨fun hlasts => ?_, hiff⟩
  have hall := hiff.mp hlasts target.metricRelabelConfigs.length
  rw [List.take_length] at hall
  exact finalizeSeriesLabels_eq_of_sameOutcome hraw hall

/-- A rule that collects every label called `a…` under one name. -/
def collectRule : RelabelConfig fragmentDeps.engine where
  regex := {
    source := "a.*"
    regex := (false, [.char 'a', .anyStar])
    kind := .literalPrefix "a"
    compiled := by
      change Regex.parseAnchored (Regex.anchor "a.*").toList = some (false, [.char 'a', .anyStar])
      decide +kernel
    classified := by decide +kernel }
  replacement := "x"
  action := .labelMap

def collectTarget : Target fragmentDeps.engine where
  url := "http://h/metrics"
  params := []
  labels := [⟨"instance", "h"⟩, ⟨"job", "j"⟩]
  honorLabels := false
  honorTimestamps := true
  sampleLimit := 0
  protobuf := {
    honorTimestamps := true
    nativeHistograms := false
    classicHistograms := false
    bucketLimit := 0 }
  trackStaleness := false
  metricRelabelConfigs := [collectRule]
  externalLabels := []

/-- One captured label. -/
theorem finalizeSeriesLabels_perm_collect :
    finalizeSeriesLabels fragmentDeps [⟨"b", "1"⟩, ⟨"a2", "2"⟩] collectTarget =
      finalizeSeriesLabels fragmentDeps [⟨"a2", "2"⟩, ⟨"b", "1"⟩] collectTarget := by
  have hraw : UniqueNames [⟨"b", "1"⟩, ⟨"a2", "2"⟩] := by decide
  have hperm : [(⟨"b", "1"⟩ : Label), ⟨"a2", "2"⟩].Perm [⟨"a2", "2"⟩, ⟨"b", "1"⟩] := List.Perm.swap ..
  refine (finalizeSeriesLabels_perm hraw hperm).1 ⟨fun _ => Apart.sameLast ?_ ?_, ?_⟩
  · unfold Apart
    decide +kernel
  · exact mergeTargetLabels_perm hraw hperm _ _
  · split <;> trivial

/-- **With two captured labels the order decides.** -/
theorem finalizeSeriesLabels_orders_differ :
    ¬ ∀ (target : Target fragmentDeps.engine) (raw raw' : List Label),
      UniqueNames raw → raw.Perm raw' →
      finalizeSeriesLabels fragmentDeps raw target = finalizeSeriesLabels fragmentDeps raw' target := by
  intro h
  have heq := h collectTarget [⟨"a1", "1"⟩, ⟨"a2", "2"⟩] [⟨"a2", "2"⟩, ⟨"a1", "1"⟩] (by decide)
    (List.Perm.swap ..)
  have hdiffer : (finalizeSeriesLabels fragmentDeps [⟨"a1", "1"⟩, ⟨"a2", "2"⟩]
      collectTarget).toOption ≠ (finalizeSeriesLabels fragmentDeps [⟨"a2", "2"⟩, ⟨"a1", "1"⟩]
      collectTarget).toOption := by decide +kernel
  exact hdiffer (congrArg Except.toOption heq)

end PromScrape
