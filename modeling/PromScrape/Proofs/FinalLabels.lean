import PromScrape.Implementation.Scrape

set_option autoImplicit false

/-! # What the label pipeline leaves alone

Every update of the pipeline concerns labels of one name. Labels of other names at the front of a
list stay there untouched, so without metric relabeling the raw labels of a series that share no name
with the target's labels can be read off its final label set. -/

namespace PromScrape

variable {raw labels : List Label} {name value : String}

/-- No label of `raw` is called `name`. -/
def Unnamed (raw : List Label) (name : String) : Prop := ∀ l ∈ raw, l.name ≠ name

/-! ## Single updates -/

theorem Unnamed.any_eq (h : Unnamed raw name) : raw.any (·.name == name) = false := by
  rw [List.any_eq_false]
  intro l hl
  simpa using h l hl

theorem addIfAbsent_append (h : Unnamed raw name) :
    addIfAbsent (raw ++ labels) name value = raw ++ addIfAbsent labels name value := by
  rw [addIfAbsent, addIfAbsent, List.any_append, h.any_eq, Bool.false_or]
  split
  · rfl
  · rw [List.append_assoc]

theorem setLabel_append (h : Unnamed raw name) :
    setLabel (raw ++ labels) name value = raw ++ setLabel labels name value := by
  induction raw with
  | nil => rfl
  | cons l rest ih =>
      obtain ⟨hl, hrest⟩ := List.forall_mem_cons.mp h
      have hset := ih hrest
      rw [setLabel] at hset
      rw [setLabel, List.cons_append, LabelSet.set, if_neg (by simpa using hl), hset]
      rfl

theorem mergeTargetLabel_append (honorLabels : Bool) {targetLabel : Label}
    (hname : Unnamed raw targetLabel.name)
    (hexported : Unnamed raw (exportedLabelPrefix ++ targetLabel.name)) :
    mergeTargetLabel honorLabels (raw ++ labels) targetLabel =
      raw ++ mergeTargetLabel honorLabels labels targetLabel := by
  have hfind : raw.find? (fun l => l.name == targetLabel.name) = none := by
    rw [List.find?_eq_none]
    intro l hl
    simpa using hname l hl
  rw [mergeTargetLabel, mergeTargetLabel, List.find?_append, hfind, Option.none_or]
  split
  · exact addIfAbsent_append hname
  · cases labels.find? fun l => l.name == targetLabel.name with
    | none => exact List.append_assoc ..
    | some existing =>
        dsimp only
        rw [setLabel_append hname, setLabel_append hexported]

/-! ## The pipeline -/

theorem mergeTargetLabels_append (labels : List Label) (honorLabels : Bool)
    {targetLabels : List Label}
    (h : ∀ t ∈ targetLabels, Unnamed raw t.name ∧ Unnamed raw (exportedLabelPrefix ++ t.name)) :
    mergeTargetLabels (raw ++ labels) targetLabels honorLabels =
      raw ++ mergeTargetLabels labels targetLabels honorLabels := by
  induction targetLabels generalizing labels with
  | nil => rfl
  | cons t rest ih =>
      obtain ⟨⟨hname, hexported⟩, hrest⟩ := List.forall_mem_cons.mp h
      have hstep := ih (mergeTargetLabel honorLabels labels t) hrest
      rw [mergeTargetLabels] at hstep ⊢
      rw [List.foldl_cons, mergeTargetLabel_append honorLabels hname hexported, hstep]
      rfl

theorem addExternalLabels_append (labels : List Label) {externalLabels : List Label}
    (h : ∀ e ∈ externalLabels, Unnamed raw e.name) :
    addExternalLabels (raw ++ labels) externalLabels =
      raw ++ addExternalLabels labels externalLabels := by
  induction externalLabels generalizing labels with
  | nil => rfl
  | cons e rest ih =>
      obtain ⟨hname, hrest⟩ := List.forall_mem_cons.mp h
      have hstep := ih (addIfAbsent labels e.name e.value) hrest
      rw [addExternalLabels] at hstep ⊢
      rw [List.foldl_cons, addIfAbsent_append hname, hstep]
      rfl

/-- Raw labels that no part of the target concerns. -/
structure Untouched (deps : RelabelDeps) (target : Target deps.engine) (raw : List Label) :
    Prop where
  nonempty : ∀ l ∈ raw, l.value.isEmpty = false
  targets : ∀ t ∈ target.labels,
    Unnamed raw t.name ∧ Unnamed raw (exportedLabelPrefix ++ t.name)
  externals : ∀ e ∈ target.externalLabels, Unnamed raw e.name

/-- Without rules, untouched labels are joined by the same labels for every series. -/
theorem finalizeSeriesLabels_untouched {deps : RelabelDeps} {target : Target deps.engine}
    (hrules : target.metricRelabelConfigs = []) (h : Untouched deps target raw) :
    finalizeSeriesLabels deps raw target =
      .ok (some (sortLabels (raw ++ addExternalLabels
        ((mergeTargetLabels [] target.labels target.honorLabels).filter (!·.value.isEmpty))
        target.externalLabels))) := by
  have hmerge := mergeTargetLabels_append [] target.honorLabels h.targets
  rw [List.append_nil] at hmerge
  have hkeep : raw.filter (fun l => !l.value.isEmpty) = raw := by
    rw [List.filter_eq_self]
    intro l hl
    rw [h.nonempty l hl]
    rfl
  rw [finalizeSeriesLabels, hmerge, hrules, process, applyAll]
  dsimp only
  rw [List.filter_append, hkeep, addExternalLabels_append _ h.externals]

/-- **Untouched labels are told apart by the final label set.** -/
theorem perm_of_finalizeSeriesLabels_eq {deps : RelabelDeps} {target : Target deps.engine}
    (hrules : target.metricRelabelConfigs = []) {raw' final : List Label}
    (h : Untouched deps target raw) (h' : Untouched deps target raw')
    (hfinal : finalizeSeriesLabels deps raw target = .ok (some final))
    (hfinal' : finalizeSeriesLabels deps raw' target = .ok (some final)) : raw.Perm raw' := by
  rw [finalizeSeriesLabels_untouched hrules h] at hfinal
  rw [finalizeSeriesLabels_untouched hrules h'] at hfinal'
  have heq := Option.some.inj (Except.ok.inj (hfinal.trans hfinal'.symm))
  have hperm := (List.perm_insertionSort _ _).symm.trans
    ((List.Perm.of_eq heq).trans (List.perm_insertionSort _ _))
  exact (List.perm_append_right_iff _).mp hperm

end PromScrape
