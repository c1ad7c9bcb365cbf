import PromScrape.Library.Keyed
import PromScrape.Implementation.Scrape
import PromScrape.Proofs.RelabelEffect

set_option autoImplicit false

/-! # Label lists as keyed lists

The label operations of relabeling and scraping are the operations of a list keyed by label name, so
they keep names unique. Sorting then makes the names strictly increasing; that is what a receiver of
remote write asks of every series. -/

namespace PromScrape

variable {labels : List Label} {name value : String}

/-- No label name occurs twice. -/
def UniqueNames (labels : List Label) : Prop := Keyed.Unique Label.name labels

/-- The label rule of remote write: sorted by name, no name twice. -/
def StrictlySorted (labels : List Label) : Prop := labels.Pairwise (fun a b => a.name < b.name)

instance decidableUniqueNames (labels : List Label) : Decidable (UniqueNames labels) :=
  inferInstanceAs (Decidable (labels.map Label.name).Nodup)

instance decidableStrictlySorted (labels : List Label) : Decidable (StrictlySorted labels) :=
  inferInstanceAs (Decidable (labels.Pairwise (fun a b => a.name < b.name)))

theorem uniqueNames_cons {l : Label} :
    UniqueNames (l :: labels) ↔ l.name ∉ labels.map Label.name ∧ UniqueNames labels :=
  Keyed.unique_cons

/-! ## The operations as keyed operations -/

theorem set_eq_upsert (labels : LabelSet) (name value : String) :
    labels.set name value = Keyed.upsert Label.name ⟨name, value⟩ labels := by
  induction labels with
  | nil => rfl
  | cons label rest ih =>
      rw [LabelSet.set, Keyed.upsert, ih]
      by_cases h : label.name = name
      · rw [if_pos (beq_iff_eq.mpr h), if_pos (beq_iff_eq.mpr h), h]
      · rw [if_neg (by simpa using h), if_neg (by simpa using h)]

theorem addIfAbsent_eq_insertIfAbsent (labels : List Label) (name value : String) :
    addIfAbsent labels name value = Keyed.insertIfAbsent Label.name ⟨name, value⟩ labels := rfl

theorem sortLabels_perm (labels : List Label) : (sortLabels labels).Perm labels :=
  List.perm_insertionSort _ _

/-- **Sorted labels obey the label rule exactly when their names are unique.** -/
theorem strictlySorted_sortLabels_iff : StrictlySorted (sortLabels labels) ↔ UniqueNames labels :=
  Keyed.pairwise_lt_insertionSort_iff

theorem StrictlySorted.uniqueNames (h : StrictlySorted labels) : UniqueNames labels :=
  List.pairwise_map.mpr (h.imp (fun hlt => ne_of_lt hlt))

/-! ## What they keep -/

theorem UniqueNames.set (h : UniqueNames labels) (name value : String) :
    UniqueNames (LabelSet.set labels name value) := by
  rw [set_eq_upsert]
  exact Keyed.Unique.upsert h _

theorem UniqueNames.addIfAbsent (h : UniqueNames labels) (name value : String) :
    UniqueNames (addIfAbsent labels name value) := by
  rw [addIfAbsent_eq_insertIfAbsent]
  exact Keyed.Unique.insertIfAbsent h _

theorem UniqueNames.filter (h : UniqueNames labels) (p : Label → Bool) :
    UniqueNames (labels.filter p) := Keyed.Unique.filter h p

theorem UniqueNames.sortLabels (h : UniqueNames labels) : UniqueNames (sortLabels labels) :=
  Keyed.Unique.of_perm h (sortLabels_perm labels).symm

theorem UniqueNames.addExternalLabels (h : UniqueNames labels) (externalLabels : List Label) :
    UniqueNames (addExternalLabels labels externalLabels) := by
  induction externalLabels generalizing labels with
  | nil => exact h
  | cons external rest ih => exact ih (h.addIfAbsent external.name external.value)

theorem UniqueNames.mergeTargetLabel (h : UniqueNames labels) (honorLabels : Bool)
    (targetLabel : Label) : UniqueNames (mergeTargetLabel honorLabels labels targetLabel) := by
  cases honorLabels with
  | true => exact h.addIfAbsent _ _
  | false =>
      rw [PromScrape.mergeTargetLabel, if_neg Bool.false_ne_true]
      cases hfind : labels.find? (fun label => label.name == targetLabel.name) with
      | some existing => exact (h.set _ _).set _ _
      | none =>
          have habsent := Keyed.find?_eq_none_iff.mp hfind
          rw [← Keyed.upsert_of_not_mem habsent]
          exact Keyed.Unique.upsert h _

/-- Merging keeps names unique, whatever the target's labels are. -/
theorem UniqueNames.mergeTargetLabels (h : UniqueNames labels) (targetLabels : List Label)
    (honorLabels : Bool) : UniqueNames (mergeTargetLabels labels targetLabels honorLabels) := by
  induction targetLabels generalizing labels with
  | nil => exact h
  | cons targetLabel rest ih => exact ih (h.mergeTargetLabel honorLabels targetLabel)

/-! ## Relabeling -/

/-- `labelmap` upserts what it captures. -/
theorem labelMap_eq_upsertAll (updates : List Label) (set : LabelSet) :
    updates.foldl (fun set u => set.set u.name u.value) set =
      Keyed.upsertAll Label.name updates set := by
  rw [Keyed.upsertAll]
  congr 1
  funext set u
  exact set_eq_upsert set u.name u.value

theorem UniqueNames.effect {set set' : LabelSet} {effect : Effect} (h : UniqueNames set)
    (hok : effect.run set = .ok (some set')) : UniqueNames set' := by
  cases effect with
  | abort fault => cases hok
  | drop => cases hok
  | same =>
      cases hok
      exact h
  | filter p =>
      cases hok
      exact h.filter p
  | set name value =>
      cases hok
      exact h.set name value

/-- **Every action keeps names unique.** -/
theorem UniqueNames.apply {deps : RelabelDeps} {set set' : LabelSet}
    {config : RelabelConfig deps.engine} (h : UniqueNames set)
    (hok : apply deps set config = .ok (some set')) : UniqueNames set' := by
  by_cases haction : config.action = .labelMap
  · rw [apply_labelMap deps set haction, labelMap_eq_upsertAll] at hok
    cases hok
    exact Keyed.Unique.upsertAll h _
  · obtain ⟨effect, heffect⟩ := apply_effect deps set haction
    rw [heffect set rfl rfl] at hok
    exact h.effect hok

theorem UniqueNames.applyAll {deps : RelabelDeps} {configs : List (RelabelConfig deps.engine)}
    {set set' : LabelSet} (h : UniqueNames set)
    (hok : applyAll deps set configs = .ok (some set')) : UniqueNames set' := by
  induction configs generalizing set with
  | nil =>
      cases hok
      exact h
  | cons config rest ih =>
      rw [PromScrape.applyAll] at hok
      split at hok
      · next hstep => exact ih (h.apply hstep) hok
      · cases hok
      · cases hok

theorem UniqueNames.process {deps : RelabelDeps} {configs : List (RelabelConfig deps.engine)}
    {labels' : List Label} (h : UniqueNames labels)
    (hok : process deps labels configs = .ok (some labels')) : UniqueNames labels' := by
  rw [PromScrape.process] at hok
  split at hok
  · next hall =>
      cases hok
      exact (h.applyAll hall).filter _
  · cases hok
  · cases hok

/-- **The pipeline's label sets obey the label rule.** -/
theorem strictlySorted_finalizeSeriesLabels {deps : RelabelDeps} {target : Target deps.engine}
    {raw final : List Label} (hraw : UniqueNames raw)
    (hok : finalizeSeriesLabels deps raw target = .ok (some final)) : StrictlySorted final := by
  rw [finalizeSeriesLabels] at hok
  split at hok
  · next hprocess =>
      cases hok
      rw [strictlySorted_sortLabels_iff]
      have hmerged := hraw.mergeTargetLabels target.labels target.honorLabels
      exact (hmerged.process hprocess).addExternalLabels target.externalLabels
  · cases hok
  · cases hok

end PromScrape
