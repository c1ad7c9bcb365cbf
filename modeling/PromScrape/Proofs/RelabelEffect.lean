import PromScrape.Implementation.Relabel

set_option autoImplicit false

/-! # What a relabel rule does to the labels

A rule reads the joined source values, and `keepequal` and `dropequal` the target label; all rules
except `labelmap` are decided by that. What is left of such a rule is one of few operations on the
label set, so that a property of label sets is followed through the rules by looking at those. -/

namespace PromScrape

open Regex (Engine)

/-- A rule whose reads are decided. -/
inductive Effect where
  | abort (fault : Fault)
  | drop
  | same
  | filter (p : Label → Bool)
  | set (name value : String)

def Effect.run (set : LabelSet) : Effect → Except Fault (Option LabelSet)
  | .abort fault => .error fault
  | .drop => .ok none
  | .same => .ok (some set)
  | .filter p => .ok (some (set.filter p))
  | .set name value => .ok (some (set.set name value))

/-- `run` is `set` with some effect, one for all label sets that `reads` admits. -/
def HasEffect (reads : LabelSet → Prop) (run : LabelSet → Except Fault (Option LabelSet)) : Prop :=
  ∃ effect : Effect, ∀ set, reads set → run set = effect.run set

variable {reads : LabelSet → Prop}

theorem hasEffect_ite {p : Prop} [Decidable p] {a b : LabelSet → Except Fault (Option LabelSet)}
    (ha : p → HasEffect reads a) (hb : ¬ p → HasEffect reads b) :
    HasEffect reads (fun set => if p then a set else b set) := by
  by_cases hp : p
  · simpa only [if_pos hp] using ha hp
  · simpa only [if_neg hp] using hb hp

theorem hasEffect_same : HasEffect reads (fun set => .ok (some set)) := ⟨.same, fun _ _ => rfl⟩

theorem hasEffect_drop : HasEffect reads (fun _ => .ok none) := ⟨.drop, fun _ _ => rfl⟩

theorem hasEffect_set (name value : String) :
    HasEffect reads (fun set => .ok (some (set.set name value))) := ⟨.set name value, fun _ _ => rfl⟩

theorem hasEffect_filter (p : Label → Bool) :
    HasEffect reads (fun set => .ok (some (set.filter p))) := ⟨.filter p, fun _ _ => rfl⟩

theorem hasEffect_congr {a b : LabelSet → Except Fault (Option LabelSet)} (ha : HasEffect reads a)
    (h : ∀ set, reads set → b set = a set) : HasEffect reads b := by
  obtain ⟨effect, heffect⟩ := ha
  exact ⟨effect, fun set hset => (h set hset).trans (heffect set hset)⟩

/-! ## `replace` -/

/-- The outcome of a `replace` rule whose reads are decided: nothing, or a target and a value. -/
def assign (set : LabelSet) : Option (String × String) → LabelSet
  | none => set
  | some (target, value) => setOrRemove set target value

/-- `run` is one assignment for all label sets that `reads` admits. -/
def Assigns (reads : LabelSet → Prop) (run : LabelSet → LabelSet) : Prop :=
  ∃ assignment, ∀ set, reads set → run set = assign set assignment

theorem assigns_replaceByCaptures {E : Engine} (config : RelabelConfig E) (joined : String) :
    Assigns reads (fun set => replaceByCaptures set config joined) := by
  cases hcaps : E.captures config.regex.regex joined with
  | none =>
      refine ⟨none, fun set _ => ?_⟩
      simp only [replaceByCaptures, hcaps, assign]
  | some caps =>
      cases hvalid : isValidLabelName (E.expand caps config.targetLabel) with
      | false =>
          refine ⟨none, fun set _ => ?_⟩
          simp [replaceByCaptures, hcaps, hvalid, assign]
      | true =>
          refine ⟨some (E.expand caps config.targetLabel, E.expand caps config.replacement),
            fun set _ => ?_⟩
          simp [replaceByCaptures, hcaps, hvalid, assign]

theorem assigns_replaceByLiteral {E : Engine} (config : RelabelConfig E) (joined : String) :
    Assigns reads (fun set => replaceByLiteral set config joined) := by
  by_cases hliteral : config.regex.kind = .literal ∧ !containsChar config.targetLabel '$' ∧
      !containsChar config.replacement '$'
  · by_cases hset : joined = config.regex.source ∧ isValidLabelName config.targetLabel = true
    · refine ⟨some (config.targetLabel, config.replacement), fun set _ => ?_⟩
      dsimp only
      rw [replaceByLiteral, if_pos hliteral, if_neg (not_not.mpr hset.1), hset.2]
      rfl
    · refine ⟨none, fun set _ => ?_⟩
      dsimp only
      rw [replaceByLiteral, if_pos hliteral, assign]
      by_cases hjoined : joined = config.regex.source
      · have hvalid : (!isValidLabelName config.targetLabel) = true := by
          simpa [hjoined] using hset
        rw [if_neg (not_not.mpr hjoined), if_pos hvalid]
      · rw [if_pos hjoined]
  · obtain ⟨assignment, h⟩ : Assigns reads _ := assigns_replaceByCaptures config joined
    refine ⟨assignment, fun set hset => ?_⟩
    dsimp only
    rw [replaceByLiteral, if_neg hliteral]
    exact h set hset

theorem assigns_applyReplace {E : Engine} (config : RelabelConfig E) (joined : String)
    (hreads : ∀ set, reads set → set.join config.sourceLabels config.separator = joined) :
    Assigns reads (fun set => applyReplace set config) := by
  obtain ⟨literal, hliteral⟩ : Assigns reads _ := assigns_replaceByLiteral config joined
  by_cases hdefault : config.regex.source = "(.*)" ∧ !containsChar config.targetLabel '$'
  · by_cases hnewline : containsChar joined '\n' = true
    · refine ⟨none, fun set hset => ?_⟩
      simp only [applyReplace, hreads set hset, if_pos hdefault, if_pos hnewline, assign]
    · cases hcopied : copiedValue config joined with
      | none =>
          refine ⟨literal, fun set hset => ?_⟩
          simp only [applyReplace, hreads set hset, if_pos hdefault, if_neg hnewline, hcopied]
          exact hliteral set hset
      | some value =>
          cases hvalid : isValidLabelName config.targetLabel with
          | false =>
              refine ⟨none, fun set hset => ?_⟩
              simp [applyReplace, hreads set hset, hdefault, hnewline, hcopied, hvalid, assign]
          | true =>
              refine ⟨some (config.targetLabel, value), fun set hset => ?_⟩
              simp only [applyReplace, hreads set hset, if_pos hdefault, if_neg hnewline, hcopied,
                hvalid]
              rfl
  · refine ⟨literal, fun set hset => ?_⟩
    simp only [applyReplace, hreads set hset, if_neg hdefault]
    exact hliteral set hset

theorem hasEffect_setOrRemove (target value : String) :
    HasEffect reads (fun set => .ok (some (setOrRemove set target value))) := by
  by_cases hvalue : value.isEmpty = true
  · refine hasEffect_congr (hasEffect_filter (fun label => label.name != target)) fun set _ => ?_
    rw [setOrRemove, if_pos hvalue, LabelSet.remove]
  · refine hasEffect_congr (hasEffect_set target value) fun set _ => ?_
    rw [setOrRemove, if_neg hvalue]

theorem hasEffect_applyReplace {E : Engine} (config : RelabelConfig E) (joined : String)
    (hreads : ∀ set, reads set → set.join config.sourceLabels config.separator = joined) :
    HasEffect reads (fun set => .ok (some (applyReplace set config))) := by
  obtain ⟨assignment, hassign⟩ := assigns_applyReplace config joined hreads
  cases assignment with
  | none =>
      exact hasEffect_congr hasEffect_same fun set hset =>
        congrArg (fun set => Except.ok (some set)) (hassign set hset)
  | some assignment =>
      exact hasEffect_congr (hasEffect_setOrRemove assignment.1 assignment.2) fun set hset =>
        congrArg (fun set => Except.ok (some set)) (hassign set hset)

/-! ## All rules -/

theorem hasEffect_apply (deps : RelabelDeps) (config : RelabelConfig deps.engine)
    (haction : config.action ≠ .labelMap) (joined current : String) :
    HasEffect (fun set => set.join config.sourceLabels config.separator = joined ∧
      set.get config.targetLabel = current) (fun set => apply deps set config) := by
  cases h : config.action with
  | labelMap => exact absurd h haction
  | replace =>
      refine hasEffect_congr (hasEffect_applyReplace config joined fun set hset => hset.1)
        fun set _ => ?_
      simp only [apply, h]
  | keep =>
      refine hasEffect_congr (hasEffect_ite (p := config.regex.matches joined = true)
        (fun _ => hasEffect_same) (fun _ => hasEffect_drop)) fun set hset => ?_
      simp only [apply, h, hset.1]
      split <;> rfl
  | drop =>
      refine hasEffect_congr (hasEffect_ite (p := config.regex.matches joined = true)
        (fun _ => hasEffect_drop) (fun _ => hasEffect_same)) fun set hset => ?_
      simp only [apply, h, hset.1]
      split <;> rfl
  | keepEqual =>
      refine hasEffect_congr (hasEffect_ite (p := joined = current)
        (fun _ => hasEffect_same) (fun _ => hasEffect_drop)) fun set hset => ?_
      simp only [apply, h, hset.1, hset.2]
      split <;> rfl
  | dropEqual =>
      refine hasEffect_congr (hasEffect_ite (p := joined = current)
        (fun _ => hasEffect_drop) (fun _ => hasEffect_same)) fun set hset => ?_
      simp only [apply, h, hset.1, hset.2]
      split <;> rfl
  | hashMod =>
      cases hhash : hashMod deps joined config.modulus with
      | error fault =>
          refine ⟨.abort fault, fun set hset => ?_⟩
          simp only [apply, h, hset.1, hhash]
          rfl
      | ok hash =>
          refine hasEffect_congr (hasEffect_set config.targetLabel (toString hash.toNat))
            fun set hset => ?_
          simp only [apply, h, hset.1, hhash]
  | labelDrop =>
      refine hasEffect_congr (hasEffect_filter (fun label => !config.regex.matches label.name))
        fun set _ => ?_
      simp only [apply, h]
  | labelKeep =>
      refine hasEffect_congr (hasEffect_filter (fun label => config.regex.matches label.name))
        fun set _ => ?_
      simp only [apply, h]
  | lowercase =>
      refine hasEffect_congr (hasEffect_set config.targetLabel (deps.toLowercase joined))
        fun set hset => ?_
      simp only [apply, h, hset.1]
  | uppercase =>
      refine hasEffect_congr (hasEffect_set config.targetLabel (deps.toUppercase joined))
        fun set hset => ?_
      simp only [apply, h, hset.1]

/-- **A rule other than `labelmap` has one effect on all label sets it reads the same from.** -/
theorem apply_effect (deps : RelabelDeps) (set : LabelSet) {config : RelabelConfig deps.engine}
    (haction : config.action ≠ .labelMap) :
    ∃ effect : Effect, ∀ set' : LabelSet,
      set'.join config.sourceLabels config.separator =
        set.join config.sourceLabels config.separator →
      set'.get config.targetLabel = set.get config.targetLabel →
      apply deps set' config = effect.run set' := by
  obtain ⟨effect, heffect⟩ := hasEffect_apply deps config haction _ _
  exact ⟨effect, fun set' hjoin hget => heffect set' ⟨hjoin, hget⟩⟩

theorem apply_labelMap (deps : RelabelDeps) (set : LabelSet) {config : RelabelConfig deps.engine}
    (haction : config.action = .labelMap) :
    apply deps set config = .ok (some ((labelMapUpdates set config).foldl
      (fun set u => set.set u.name u.value) set)) := by
  simp only [apply, haction]

end PromScrape
