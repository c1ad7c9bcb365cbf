import PromScrape.Implementation.Relabel

set_option autoImplicit false

/-! # Relabeling without shortcuts

The rules as the documentation of Prometheus relabeling has them: every match is the anchored
engine's, every `replace` goes through captures and expansion of both templates. -/

namespace PromScrape

open Regex (Engine)

/-- `replace` by captures and expansion. -/
def refReplace {E : Engine} (set : LabelSet) (config : RelabelConfig E) : LabelSet :=
  match E.captures config.regex.regex (set.join config.sourceLabels config.separator) with
  | none => set
  | some caps =>
      let target := E.expand caps config.targetLabel
      let replacement := E.expand caps config.replacement
      if !isValidLabelName target then set
      else if replacement.isEmpty then set.remove target
      else set.set target replacement

/-- One rule, every decision made by the engine. -/
def refApply (deps : RelabelDeps) (set : LabelSet) (config : RelabelConfig deps.engine) :
    Except Fault (Option LabelSet) :=
  let isMatch := deps.engine.isMatch config.regex.regex
  let joined := set.join config.sourceLabels config.separator
  match config.action with
  | .replace => .ok (some (refReplace set config))
  | .keep => .ok (if isMatch joined then some set else none)
  | .drop => .ok (if isMatch joined then none else some set)
  | .keepEqual => .ok (if joined = set.get config.targetLabel then some set else none)
  | .dropEqual => .ok (if joined = set.get config.targetLabel then none else some set)
  | .hashMod =>
      match hashMod deps joined config.modulus with
      | .ok hash => .ok (some (set.set config.targetLabel (toString hash.toNat)))
      | .error fault => .error fault
  | .labelMap =>
      .ok (some ((labelMapUpdates set config).foldl (fun set u => set.set u.name u.value) set))
  | .labelDrop => .ok (some (set.filter (fun label => !isMatch label.name)))
  | .labelKeep => .ok (some (set.filter (fun label => isMatch label.name)))
  | .lowercase => .ok (some (set.set config.targetLabel (deps.toLowercase joined)))
  | .uppercase => .ok (some (set.set config.targetLabel (deps.toUppercase joined)))

def refApplyAll (deps : RelabelDeps) :
    LabelSet → List (RelabelConfig deps.engine) → Except Fault (Option LabelSet)
  | set, [] => .ok (some set)
  | set, config :: rest =>
      match refApply deps set config with
      | .ok (some set) => refApplyAll deps set rest
      | .ok none => .ok none
      | .error fault => .error fault

/-- `process` with all shortcuts removed. -/
def refProcess (deps : RelabelDeps) (labels : List Label)
    (configs : List (RelabelConfig deps.engine)) : Except Fault (Option (List Label)) :=
  match refApplyAll deps labels configs with
  | .ok (some set) => .ok (some (set.filter (fun label => !label.value.isEmpty)))
  | .ok none => .ok none
  | .error fault => .error fault

end PromScrape
