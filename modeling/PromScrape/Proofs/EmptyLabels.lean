import PromScrape.Proofs.LabelOrder

set_option autoImplicit false

/-! # Labels with an empty value in relabeling

Rules read a missing label as empty, and `process` removes labels without a value when all rules are
done. In between such a label stays in the working set, where `labelmap` does not read values but
walks the labels there are: it copies an empty value over another one, and in which place a label
stands decides which of several captured labels is the last. -/

namespace PromScrape

open Lockstep (Agree AtEach)
open Regex (fragmentEngine)

/-! ## Values -/

section

variable (set : LabelSet) (name : String)

theorem get_cons (label : Label) :
    LabelSet.get (label :: set) name = if label.name = name then label.value else set.get name := by
  rw [LabelSet.get, List.find?_cons]
  by_cases h : label.name = name
  · rw [if_pos h, beq_iff_eq.mpr h]
  · rw [if_neg h, beq_eq_false_iff_ne.mpr h]
    rfl

theorem get_set (value other : String) :
    (set.set name value).get other = if name = other then value else set.get other := by
  induction set with
  | nil => rw [LabelSet.set, get_cons]
  | cons label rest ih =>
      rw [LabelSet.set, get_cons]
      by_cases hname : label.name = name
      · rw [if_pos (beq_iff_eq.mpr hname), get_cons, hname]
        by_cases hother : name = other <;> simp [hother]
      · rw [if_neg (by simpa using hname), get_cons, ih]
        by_cases hother : name = other
        · rw [if_neg (hother ▸ hname), if_pos hother, if_pos hother]
        · rw [if_neg hother, if_neg hother]

/-- A filter by names keeps the values of the names it keeps. -/
theorem get_filter_name (q : String → Bool) :
    LabelSet.get (set.filter fun label => q label.name) name = if q name then set.get name else "" := by
  induction set with
  | nil => exact (ite_self _).symm
  | cons label rest ih =>
      by_cases hkeep : q label.name = true
      · rw [List.filter_cons, if_pos hkeep, get_cons, get_cons, ih]
        by_cases hname : label.name = name
        · rw [if_pos hname, if_pos hname, ← hname, if_pos hkeep]
        · rw [if_neg hname, if_neg hname]
      · rw [List.filter_cons, if_neg hkeep, ih, get_cons]
        by_cases hname : label.name = name
        · rw [← hname, if_neg hkeep, if_neg hkeep]
        · rw [if_neg hname]

/-- Among several assignments to one name the last one counts. -/
theorem get_foldl_set (updates : List Label) :
    LabelSet.get (updates.foldl (fun set u => set.set u.name u.value) set) name =
      match Keyed.lastWith Label.name updates name with
      | some u => u.value
      | none => set.get name := by
  induction updates using List.reverseRecOn with
  | nil => rfl
  | append_singleton init u ih =>
      rw [List.foldl_append, Keyed.lastWith_concat]
      show LabelSet.get (LabelSet.set _ u.name u.value) name = _
      rw [get_set, ih]
      by_cases hname : u.name = name <;> simp [hname]

end

theorem UniqueNames.get_eq_iff {set : LabelSet} (h : UniqueNames set) {name value : String}
    (hvalue : value ≠ "") : set.get name = value ↔ ⟨name, value⟩ ∈ set := by
  induction set with
  | nil => exact iff_of_false (fun hget => hvalue hget.symm) (List.not_mem_nil)
  | cons label rest ih =>
      obtain ⟨hfresh, hrest⟩ := uniqueNames_cons.mp h
      rw [get_cons, List.mem_cons]
      by_cases hname : label.name = name
      · rw [if_pos hname]
        have hnot : ⟨name, value⟩ ∉ rest := fun hmem =>
          hfresh (hname ▸ List.mem_map_of_mem hmem)
        rw [or_iff_left hnot]
        cases label
        cases hname
        simp [eq_comm]
      · rw [if_neg hname, ih hrest]
        refine (or_iff_right ?_).symm
        rintro rfl
        exact hname rfl

/-- The same labels but for empty ones, and but for the order. -/
structure Alike (set set' : LabelSet) : Prop where
  unique : UniqueNames set
  unique' : UniqueNames set'
  get : ∀ name, set.get name = set'.get name

/-- What is left without the empty labels is the same. -/
theorem Alike.filter_perm {set set' : LabelSet} (h : Alike set set') :
    (set.filter fun label => !label.value.isEmpty).Perm
      (set'.filter fun label => !label.value.isEmpty) := by
  rw [Keyed.Unique.perm_iff (h.unique.filter _) (h.unique'.filter _)]
  intro label
  rw [List.mem_filter, List.mem_filter]
  refine and_congr_left fun hvalue => ?_
  have hne : label.value ≠ "" := by simpa using hvalue
  rw [← h.unique.get_eq_iff hne, ← h.unique'.get_eq_iff hne, h.get]

theorem Alike.join {set set' : LabelSet} (h : Alike set set') (sourceLabels : List String)
    (separator : String) : set.join sourceLabels separator = set'.join sourceLabels separator := by
  rw [LabelSet.join, LabelSet.join]
  exact congrArg _ (List.map_congr_left fun name _ => h.get name)

/-- The set without the empty labels that `keep` does not select. -/
def prune (keep : Label → Bool) (set : LabelSet) : LabelSet :=
  set.filter fun label => !label.value.isEmpty || keep label

theorem get_prune {set : LabelSet} (h : UniqueNames set) (keep : Label → Bool) (name : String) :
    (prune keep set).get name = set.get name := by
  by_cases hempty : set.get name = ""
  · rw [hempty]
    by_contra hne
    have hmem := ((h.filter _).get_eq_iff hne).mp rfl
    have hget := (h.get_eq_iff hne).mpr (List.mem_filter.mp hmem).1
    exact hne (hget.symm.trans hempty)
  · refine ((h.filter _).get_eq_iff hempty).mpr (List.mem_filter.mpr ?_)
    refine ⟨(h.get_eq_iff hempty).mp rfl, ?_⟩
    simp [hempty]

theorem Alike.prune {set set' : LabelSet} (h : Alike set set') (keep : Label → Bool) :
    Alike set (prune keep set') := by
  refine ⟨h.unique, h.unique'.filter _, fun name => ?_⟩
  rw [get_prune h.unique', h.get]

/-! ## One rule -/

section

variable {labels labels' : LabelSet}

theorem Alike.set (h : Alike labels labels') (name value : String) :
    Alike (labels.set name value) (labels'.set name value) := by
  refine ⟨h.unique.set _ _, h.unique'.set _ _, fun other => ?_⟩
  rw [get_set, get_set, h.get]

theorem Alike.filter_name (h : Alike labels labels') (q : String → Bool) :
    Alike (labels.filter fun label => q label.name) (labels'.filter fun label => q label.name) := by
  refine ⟨h.unique.filter _, h.unique'.filter _, fun name => ?_⟩
  rw [get_filter_name, get_filter_name, h.get]

theorem Alike.assign (h : Alike labels labels') (assignment : Option (String × String)) :
    Alike (assign labels assignment) (assign labels' assignment) := by
  cases assignment with
  | none => exact h
  | some assignment =>
      obtain ⟨target, value⟩ := assignment
      rw [PromScrape.assign, PromScrape.assign, setOrRemove, setOrRemove]
      split
      · exact h.filter_name fun name => name != target
      · exact h.set target value

variable {deps : RelabelDeps}

/-- The value that `labelmap` leaves under a name: that of the label captured last for it, or the one
    it has. -/
def capturedValue (set : LabelSet) (config : RelabelConfig deps.engine) (name : String) : String :=
  match Keyed.lastWith Label.name (labelMapUpdates set config) name with
  | some u => u.value
  | none => set.get name

/-- In both sets the labels captured last have the same values, a name for which a label is captured in
    one of them only having that value in the other. -/
def SameCaptures (set set' : LabelSet) (config : RelabelConfig deps.engine) : Prop :=
  ∀ name, capturedValue set config name = capturedValue set' config name

/-- Every rule that is not `labelmap` takes an empty label for a missing one. -/
theorem apply_agree (h : Alike labels labels') {config : RelabelConfig deps.engine}
    (haction : config.action ≠ .labelMap) :
    Agree Alike (apply deps labels config) (apply deps labels' config) := by
  have hjoin := h.join config.sourceLabels config.separator
  have hget := h.get config.targetLabel
  cases hkind : config.action with
  | labelMap => exact absurd hkind haction
  | replace =>
      obtain ⟨assignment, hassign⟩ : Assigns (fun set =>
          set.join config.sourceLabels config.separator =
            labels.join config.sourceLabels config.separator) (applyReplace · config) :=
        assigns_applyReplace config _ fun _ hreads => hreads
      have hreplaced : applyReplace labels config = PromScrape.assign labels assignment :=
        hassign labels rfl
      have hreplaced' : applyReplace labels' config = PromScrape.assign labels' assignment :=
        hassign labels' hjoin.symm
      simp only [apply, hkind, hreplaced, hreplaced']
      exact .related (h.assign assignment)
  | keep =>
      simp only [apply, hkind, hjoin]
      split
      · exact .related h
      · exact .dropped
  | drop =>
      simp only [apply, hkind, hjoin]
      split
      · exact .dropped
      · exact .related h
  | keepEqual =>
      simp only [apply, hkind, hjoin, hget]
      split
      · exact .related h
      · exact .dropped
  | dropEqual =>
      simp only [apply, hkind, hjoin, hget]
      split
      · exact .dropped
      · exact .related h
  | hashMod =>
      simp only [apply, hkind, hjoin]
      cases hashMod deps (labels'.join config.sourceLabels config.separator) config.modulus with
      | error fault => exact .failed fault
      | ok hash => exact .related (h.set _ _)
  | labelDrop =>
      simp only [apply, hkind]
      exact .related (h.filter_name fun name => !config.regex.matches name)
  | labelKeep =>
      simp only [apply, hkind]
      exact .related (h.filter_name fun name => config.regex.matches name)
  | lowercase =>
      simp only [apply, hkind, hjoin]
      exact .related (h.set _ _)
  | uppercase =>
      simp only [apply, hkind, hjoin]
      exact .related (h.set _ _)

/-- **Only `labelmap` tells an empty label from a missing one.** -/
theorem apply_agree_iff (h : Alike labels labels') (config : RelabelConfig deps.engine) :
    Agree Alike (apply deps labels config) (apply deps labels' config) ↔
      (config.action = .labelMap → SameCaptures labels labels' config) := by
  by_cases haction : config.action = .labelMap
  · rw [apply_labelMap deps labels haction, apply_labelMap deps labels' haction]
    constructor
    · intro hagree _ name
      cases hagree with
      | related hnext =>
          have hname := hnext.get name
          rwa [get_foldl_set, get_foldl_set] at hname
    · intro hsame
      refine .related ⟨h.unique.apply (apply_labelMap deps labels haction),
        h.unique'.apply (apply_labelMap deps labels' haction), fun name => ?_⟩
      rw [get_foldl_set, get_foldl_set]
      exact hsame haction name
  · exact iff_of_true (apply_agree h haction) fun hmap => absurd hmap haction

end

/-! ## All rules -/

section

variable {deps : RelabelDeps}

/-- A rule, and which empty labels are still kept when it is applied. -/
abbrev PruningStep (deps : RelabelDeps) := (Label → Bool) × RelabelConfig deps.engine

/-- The rules, empty labels being deleted before each of them. -/
def applyPruning (deps : RelabelDeps) (set : LabelSet) (steps : List (PruningStep deps)) :
    Except Fault (Option LabelSet) :=
  Lockstep.run (fun set step => apply deps (prune step.1 set) step.2) set steps

/-- `process` with empty labels deleted before each rule. -/
def processPruning (deps : RelabelDeps) (labels : List Label) (steps : List (PruningStep deps)) :
    Except Fault (Option (List Label)) :=
  match applyPruning deps labels steps with
  | .ok (some set) => .ok (some (set.filter (fun label => !label.value.isEmpty)))
  | .ok none => .ok none
  | .error fault => .error fault

/-- The captured labels agree at every `labelmap` rule that the run with all empty labels and the run
    with some of them reach. -/
def CapturesAgree (deps : RelabelDeps) (labels labels' : List Label)
    (steps : List (PruningStep deps)) : Prop :=
  AtEach (fun set step => apply deps set step.2)
    (fun set step => apply deps (prune step.1 set) step.2)
    (fun set set' step => step.2.action = .labelMap → SameCaptures set (prune step.1 set') step.2)
    labels labels' steps

theorem capturesAgree_iff {labels labels' : List Label} (h : Alike labels labels')
    (steps : List (PruningStep deps)) :
    CapturesAgree deps labels labels' steps ↔
      ∀ n, Agree Alike (applyAll deps labels ((steps.take n).map Prod.snd))
        (applyPruning deps labels' (steps.take n)) := by
  rw [CapturesAgree, Lockstep.atEach_iff (fun set set' step hset =>
    apply_agree_iff (hset.prune step.1) step.2) steps h]
  refine forall_congr' fun n => ?_
  rw [applyAll_eq_run, Lockstep.run_map]
  rfl

theorem sameOutcome_processPruning {labels labels' : List Label} {steps : List (PruningStep deps)}
    (h : Agree Alike (applyAll deps labels (steps.map Prod.snd)) (applyPruning deps labels' steps)) :
    SameOutcome (process deps labels (steps.map Prod.snd)) (processPruning deps labels' steps) := by
  rw [process, processPruning]
  generalize applyAll deps labels (steps.map Prod.snd) = x at h
  generalize applyPruning deps labels' steps = y at h
  cases h with
  | failed fault => rfl
  | dropped => trivial
  | related hset => exact hset.filter_perm

theorem prune_keepAll (set : LabelSet) : prune (fun _ => true) set = set := by
  simp [prune]

/-- Deleting all empty labels at the start only is relabeling the list without them. -/
theorem processPruning_start (labels : List Label) (config : RelabelConfig deps.engine)
    (rest : List (RelabelConfig deps.engine)) :
    processPruning deps labels ((fun _ => false, config) :: rest.map (fun _ => true, ·)) =
      process deps (labels.filter fun label => !label.value.isEmpty) (config :: rest) := by
  have hstart : prune (fun _ => false) labels = labels.filter fun label => !label.value.isEmpty := by
    simp [prune]
  have hrest : ∀ set, applyPruning deps set (rest.map (fun _ => true, ·)) =
      applyAll deps set rest := by
    intro set
    rw [applyPruning, Lockstep.run_map, applyAll_eq_run]
    simp only [prune_keepAll]
  rw [processPruning, process, applyPruning, Lockstep.run, applyAll, ← hstart]
  rcases apply deps (prune (fun _ => false) labels) config with fault | _ | next
  · rfl
  · rfl
  · dsimp only
    rw [← hrest]
    rfl

/-- **When empty labels count as missing.** Runs with and without them have the same labels but for empty
ones after every rule exactly when the captured labels agree at every `labelmap` rule; and then both are
dropped or give one set of labels. -/
theorem process_pruning_iff {labels : List Label} (h : UniqueNames labels)
    (steps : List (PruningStep deps)) :
    (CapturesAgree deps labels labels steps →
      SameOutcome (process deps labels (steps.map Prod.snd)) (processPruning deps labels steps)) ∧
    (CapturesAgree deps labels labels steps ↔
      ∀ n, Agree Alike (applyAll deps labels ((steps.take n).map Prod.snd))
        (applyPruning deps labels (steps.take n))) := by
  have hiff := capturesAgree_iff ⟨h, h, fun _ => rfl⟩ steps
  refine ⟨fun hcaptures => sameOutcome_processPruning ?_, hiff⟩
  have hall := hiff.mp hcaptures steps.length
  rwa [List.take_length] at hall

end

/-- A rule that copies the label `a` to `b`. -/
def copyRule : RelabelConfig fragmentDeps.engine where
  regex := {
    source := "a"
    regex := (false, [.char 'a'])
    kind := .literal
    compiled := by
      change Regex.parseAnchored (Regex.anchor "a").toList = some (false, [.char 'a'])
      decide +kernel
    classified := by decide +kernel }
  replacement := "b"
  action := .labelMap

theorem process_pruning_iff_copy :
    SameOutcome (process fragmentDeps [⟨"a", "1"⟩, ⟨"c", ""⟩] [copyRule])
      (processPruning fragmentDeps [⟨"a", "1"⟩, ⟨"c", ""⟩] [(fun _ => false, copyRule)]) := by
  have hlabels : UniqueNames [⟨"a", "1"⟩, ⟨"c", ""⟩] := by decide
  refine (process_pruning_iff hlabels [(fun _ => false, copyRule)]).1 ⟨fun _ name => ?_, fun _ _ _ _ =>
    trivial⟩
  have hupdates : labelMapUpdates (prune (fun _ => false) [⟨"a", "1"⟩, ⟨"c", ""⟩]) copyRule =
      labelMapUpdates [⟨"a", "1"⟩, ⟨"c", ""⟩] copyRule := by decide +kernel
  rw [capturedValue, capturedValue, hupdates, get_prune hlabels]

/-- **An empty label is copied over another one**, which stays when the empty one is missing. -/
theorem process_emptyLabel_differs :
    ¬ ∀ (labels : List Label) (configs : List (RelabelConfig fragmentDeps.engine)),
      UniqueNames labels → SameOutcome (process fragmentDeps labels configs)
        (process fragmentDeps (labels.filter fun label => !label.value.isEmpty) configs) := by
  intro h
  have hsame := h [⟨"a", ""⟩, ⟨"b", "x"⟩] [copyRule] (by decide)
  have hgone : process fragmentDeps [⟨"a", ""⟩, ⟨"b", "x"⟩] [copyRule] = .ok (some []) := by
    decide +kernel
  have hkept : process fragmentDeps ([⟨"a", ""⟩, ⟨"b", "x"⟩].filter fun label => !label.value.isEmpty)
      [copyRule] = .ok (some [⟨"b", "x"⟩]) := by decide +kernel
  rw [hgone, hkept] at hsame
  exact absurd hsame.length_eq (by decide)

end PromScrape
