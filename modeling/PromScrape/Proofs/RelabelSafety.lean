import PromScrape.Implementation.Config
import PromScrape.Proofs.Relabel

set_option autoImplicit false

/-! # When relabeling is free of faults and of nameless labels

`Config::validate` never asks a relabel rule for its own side conditions (`RelabelConfig::validate`
is called by tests only), so a `hashmod` rule with its default modulus of 0 reaches the division, and
rules with an empty target create a label without a name. What a step needs instead is `StepOk`, a
condition on the rule and the label set it finds; a run is safe exactly if it holds at every step
(`safeRun_iff_runOk`). -/

namespace PromScrape

open Regex (Engine)

/-- Some label has the empty name. -/
def Nameless (set : LabelSet) : Prop := ∃ label ∈ set, label.name = ""

instance Nameless.decidable (set : LabelSet) : Decidable (Nameless set) :=
  inferInstanceAs (Decidable (∃ label ∈ set, label.name = ""))

/-- What a rule made of `set` is no fault and has no nameless label that `set` had not. -/
def OutcomeSafe (set : LabelSet) : Except Fault (Option LabelSet) → Prop
  | .error _ => False
  | .ok none => True
  | .ok (some set') => Nameless set' → Nameless set

/-- No rule of the run divides by zero or creates a nameless label. -/
def SafeRun (deps : RelabelDeps) : LabelSet → List (RelabelConfig deps.engine) → Prop
  | _, [] => True
  | set, config :: rest =>
      OutcomeSafe set (apply deps set config) ∧
        match apply deps set config with
        | .ok (some set') => SafeRun deps set' rest
        | _ => True

/-- What a rule needs of itself and of the label set it is applied to. -/
def StepOk (deps : RelabelDeps) (set : LabelSet) (config : RelabelConfig deps.engine) : Prop :=
  match config.action with
  | .hashMod => config.modulus ≠ 0 ∧ (config.targetLabel = "" → Nameless set)
  | .lowercase | .uppercase => config.targetLabel = "" → Nameless set
  | .labelMap =>
      (∃ label ∈ set, ∃ caps ∈ deps.engine.captures config.regex.regex label.name,
        deps.engine.expand caps config.replacement = "") → Nameless set
  | _ => True

/-- `StepOk` at every step the run takes. -/
def RunOk (deps : RelabelDeps) : LabelSet → List (RelabelConfig deps.engine) → Prop
  | _, [] => True
  | set, config :: rest =>
      StepOk deps set config ∧
        match apply deps set config with
        | .ok (some set') => RunOk deps set' rest
        | _ => True

/-! ## Names in a label set -/

theorem nameless_filter {set : LabelSet} {p : Label → Bool} (h : Nameless (set.filter p)) :
    Nameless set := by
  obtain ⟨label, hlabel, hname⟩ := h
  exact ⟨label, List.mem_of_mem_filter hlabel, hname⟩

theorem nameless_cons (label : Label) (set : LabelSet) :
    Nameless (label :: set) ↔ label.name = "" ∨ Nameless set := by
  simp [Nameless]

theorem nameless_set (set : LabelSet) (name value : String) :
    Nameless (set.set name value) ↔ name = "" ∨ Nameless set := by
  induction set with
  | nil => simp [LabelSet.set, Nameless]
  | cons label rest ih =>
      rw [LabelSet.set]
      split
      · next hname =>
          have heq : label.name = name := by simpa using hname
          simp [Nameless, heq]
      · rw [nameless_cons, nameless_cons, ih]
        exact or_left_comm

theorem nameless_setAll (updates : List Label) (set : LabelSet) :
    Nameless (updates.foldl (fun set u => set.set u.name u.value) set)
      ↔ (∃ u ∈ updates, u.name = "") ∨ Nameless set := by
  induction updates generalizing set with
  | nil => simp
  | cons u rest ih =>
      have hcons : (∃ v ∈ u :: rest, v.name = "") ↔ u.name = "" ∨ ∃ v ∈ rest, v.name = "" := by simp
      rw [List.foldl_cons, ih, nameless_set, hcons, or_left_comm, or_assoc]

theorem isValidLabelName_ne_empty {name : String} (h : isValidLabelName name = true) : name ≠ "" := by
  rintro rfl
  exact absurd h (by decide)

theorem nameless_setOrRemove {set : LabelSet} {target value : String} (htarget : target ≠ "")
    (h : Nameless (setOrRemove set target value)) : Nameless set := by
  unfold setOrRemove at h
  split at h
  · exact nameless_filter h
  · exact ((nameless_set set target value).1 h).resolve_left htarget

/-- Nor does it with a target that passed the check. -/
theorem nameless_setOrRemove_valid {set : LabelSet} {target value : String}
    (hvalid : ¬ (!isValidLabelName target) = true) (h : Nameless (setOrRemove set target value)) :
    Nameless set :=
  nameless_setOrRemove (isValidLabelName_ne_empty (by simpa using hvalid)) h

theorem nameless_replaceByCaptures {E : Engine} {set : LabelSet} {config : RelabelConfig E}
    {joined : String} (h : Nameless (replaceByCaptures set config joined)) : Nameless set := by
  simp only [replaceByCaptures] at h
  split at h
  · exact h
  · split at h
    · exact h
    · next hvalid => exact nameless_setOrRemove_valid hvalid h

theorem nameless_replaceByLiteral {E : Engine} {set : LabelSet} {config : RelabelConfig E}
    {joined : String} (h : Nameless (replaceByLiteral set config joined)) : Nameless set := by
  unfold replaceByLiteral at h
  split at h
  · split at h
    · exact h
    · split at h
      · exact h
      · next hvalid => exact nameless_setOrRemove_valid hvalid h
  · exact nameless_replaceByCaptures h

/-- `replace` checks its target, so it never creates a nameless label. -/
theorem nameless_applyReplace {E : Engine} {set : LabelSet} {config : RelabelConfig E}
    (h : Nameless (applyReplace set config)) : Nameless set := by
  simp only [applyReplace] at h
  split at h
  · split at h
    · exact h
    · split at h
      · split at h
        · exact h
        · next hvalid => exact nameless_setOrRemove_valid hvalid h
      · exact nameless_replaceByLiteral h
  · exact nameless_replaceByLiteral h

theorem exists_update_nameless {E : Engine} (set : LabelSet) (config : RelabelConfig E) :
    (∃ u ∈ labelMapUpdates set config, u.name = "") ↔
      ∃ label ∈ set, ∃ caps ∈ E.captures config.regex.regex label.name,
        E.expand caps config.replacement = "" := by
  simp only [labelMapUpdates, List.mem_filterMap, Option.map_eq_some_iff]
  constructor
  · rintro ⟨_, ⟨label, hlabel, caps, hcaps, rfl⟩, hname⟩
    exact ⟨label, hlabel, caps, hcaps, hname⟩
  · rintro ⟨label, hlabel, caps, hcaps, hname⟩
    exact ⟨_, ⟨label, hlabel, caps, hcaps, rfl⟩, hname⟩

/-! ## One rule -/

theorem outcomeSafe_set (set : LabelSet) (name value : String) :
    OutcomeSafe set (.ok (some (set.set name value))) ↔ (name = "" → Nameless set) := by
  show (Nameless (set.set name value) → Nameless set) ↔ _
  rw [nameless_set]
  exact ⟨fun h hname => h (Or.inl hname), fun h hset => hset.elim h id⟩

/-- **A step is safe exactly under its condition.** -/
theorem outcomeSafe_apply_iff (deps : RelabelDeps) (set : LabelSet)
    (config : RelabelConfig deps.engine) :
    OutcomeSafe set (apply deps set config) ↔ StepOk deps set config := by
  have htrue : ∀ out : Option LabelSet, OutcomeSafe set (.ok out) →
      (OutcomeSafe set (.ok out) ↔ True) := fun out h => iff_true_intro h
  have hif : ∀ (p : Prop) [Decidable p] (a b : Option LabelSet), OutcomeSafe set (.ok a) →
      OutcomeSafe set (.ok b) → (OutcomeSafe set (.ok (if p then a else b)) ↔ True) := by
    intro p _ a b ha hb
    split
    · exact iff_true_intro ha
    · exact iff_true_intro hb
  have hself : OutcomeSafe set (.ok (some set)) := id
  -- only `hashmod`, `labelmap` and the case actions write a name they do not check
  unfold apply StepOk
  cases config.action
  case replace => exact htrue _ nameless_applyReplace
  case keep => exact hif _ _ _ hself trivial
  case drop => exact hif _ _ _ trivial hself
  case keepEqual => exact hif _ _ _ hself trivial
  case dropEqual => exact hif _ _ _ trivial hself
  case hashMod =>
    unfold hashMod
    by_cases hmodulus : config.modulus = 0
    · simp [hmodulus, OutcomeSafe]
    · simp only [ne_eq, hmodulus, not_false_eq_true, true_and]
      exact outcomeSafe_set ..
  case labelMap =>
    show (Nameless _ → Nameless set) ↔ _
    rw [nameless_setAll, exists_update_nameless]
    exact ⟨fun h hnew => h (Or.inl hnew), fun h hset => hset.elim h id⟩
  case labelDrop => exact htrue _ nameless_filter
  case labelKeep => exact htrue _ nameless_filter
  case lowercase => exact outcomeSafe_set ..
  case uppercase => exact outcomeSafe_set ..

/-! ## Whole runs -/

/-- **A run divides by zero or creates a nameless label exactly when some step it takes misses its
    condition**: for every rule list of every configuration, accepted or not, and every label
    list. -/
theorem safeRun_iff_runOk (deps : RelabelDeps) (rules : List (RelabelConfig deps.engine))
    (labels : List Label) : SafeRun deps labels rules ↔ RunOk deps labels rules := by
  induction rules generalizing labels with
  | nil => exact Iff.rfl
  | cons config rest ih =>
      rw [SafeRun, RunOk, outcomeSafe_apply_iff]
      rcases apply deps labels config with fault | (_ | set')
      · exact Iff.rfl
      · exact Iff.rfl
      · exact and_congr_right fun _ => ih set'

/-- A safe run does not fault. -/
theorem SafeRun.process_ok {deps : RelabelDeps} {rules : List (RelabelConfig deps.engine)}
    {labels : List Label} (h : SafeRun deps labels rules) :
    ∃ out, process deps labels rules = .ok out := by
  have hall : ∃ out, applyAll deps labels rules = .ok out := by
    induction rules generalizing labels with
    | nil => exact ⟨_, rfl⟩
    | cons config rest ih =>
        obtain ⟨hstep, hrest⟩ := h
        rw [applyAll]
        rcases happly : apply deps labels config with fault | (_ | set')
        · rw [happly] at hstep
          exact hstep.elim
        · exact ⟨_, rfl⟩
        · rw [happly] at hrest
          exact ih hrest
  obtain ⟨out, hout⟩ := hall
  rw [process, hout]
  cases out with
  | none => exact ⟨_, rfl⟩
  | some set => exact ⟨_, rfl⟩

/-- The check nobody calls would do, `labelmap` aside: rules that pass their own validation and whose
    `labelmap` names never expand to nothing run safely on every label list. -/
theorem runOk_of_validate (deps : RelabelDeps) (rules : List (RelabelConfig deps.engine))
    (hvalid : ∀ config ∈ rules, config.validate = .ok ())
    (hmap : ∀ config ∈ rules, config.action = .labelMap →
      ∀ caps, deps.engine.expand caps config.replacement ≠ "") (labels : List Label) :
    RunOk deps labels rules := by
  induction rules generalizing labels with
  | nil => trivial
  | cons config rest ih =>
      have hrest := ih (fun c hc => hvalid c (List.mem_cons_of_mem _ hc))
        (fun c hc => hmap c (List.mem_cons_of_mem _ hc))
      refine ⟨?_, ?_⟩
      · have hconfig := hvalid config (List.mem_cons_self ..)
        have hexpand := hmap config (List.mem_cons_self ..)
        unfold StepOk
        unfold RelabelConfig.validate at hconfig
        cases haction : config.action
        case hashMod =>
          simp only [haction] at hconfig
          split at hconfig
          · cases hconfig
          · next hmodulus =>
              split at hconfig
              · cases hconfig
              · next htarget =>
                  exact ⟨hmodulus, fun hempty => absurd (by rw [hempty]; rfl) htarget⟩
        case lowercase | uppercase =>
          simp only [haction] at hconfig
          split at hconfig
          · cases hconfig
          · next htarget => exact fun hempty => absurd (by rw [hempty]; rfl) htarget
        case labelMap =>
          rintro ⟨label, -, caps, -, hempty⟩
          exact absurd hempty (hexpand haction caps)
        all_goals trivial
      · rcases apply deps labels config with fault | (_ | set')
        · trivial
        · trivial
        · exact hrest set'

/-! ## The gap -/

/-- A scrape config whose only rule is the given one. -/
def jobWithRule (pattern : String)
    (rule : AnchoredRegex fragmentDeps.engine → RelabelConfig fragmentDeps.engine) :
    Config fragmentDeps.engine :=
  { scrapeConfigs := [
      { jobName := "node"
        relabelConfigs := ((AnchoredRegex.new pattern).map rule).toList }] }

/-- `action: hashmod` with everything else at its default, `modulus` included. -/
def hashModDefaults : Config fragmentDeps.engine :=
  jobWithRule "(.*)" (fun regex => { regex := regex, action := .hashMod, targetLabel := "shard" })

/-- `action: lowercase` with everything else at its default, `target_label` included. -/
def lowercaseDefaults : Config fragmentDeps.engine :=
  jobWithRule "(.*)" (fun regex => { regex := regex, action := .lowercase })

/-- Both configurations are accepted; one divides by zero, the other creates a nameless label. -/
theorem validate_accepts_unsafe_rules :
    (hashModDefaults.validate = .ok () ∧ ∃ rules ∈ hashModDefaults.relabelLists,
      process fragmentDeps [⟨"a", "b"⟩] rules = .error .divisionByZero) ∧
    (lowercaseDefaults.validate = .ok () ∧ ∃ rules ∈ lowercaseDefaults.relabelLists,
      ∃ out, applyAll fragmentDeps [⟨"a", "b"⟩] rules = .ok (some out) ∧
        Nameless out ∧ ¬ Nameless [⟨"a", "b"⟩]) := by
  refine ⟨⟨by decide +kernel, _, List.mem_cons_self .., by decide +kernel⟩,
    by decide +kernel, _, List.mem_cons_self .., [⟨"a", "b"⟩, ⟨"", ""⟩], by decide +kernel,
    by decide +kernel, by decide +kernel⟩

end PromScrape
