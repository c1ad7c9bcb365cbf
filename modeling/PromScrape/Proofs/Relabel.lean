import PromScrape.Spec.Relabel

set_option autoImplicit false

/-! # The relabeling shortcuts change nothing

`AnchoredRegex.matches` agrees with the engine for every pattern (`matches_eq_isMatch`), by the kind
of the pattern; the two shortcuts of `replace` agree with captures and expansion
(`applyReplace_eq_refReplace`). Of the engine only its documentation is used (`Documented`). -/

namespace PromScrape

open Regex

/-! ## Strings -/

theorem containsChar_iff (s : String) (c : Char) : containsChar s c = true ↔ c ∈ s.toList := by
  simp [containsChar]

theorem containsMeta_eq_false {pattern : String} (h : containsMeta pattern = false) :
    ∀ c ∈ pattern.toList, c ∉ metaChars := by
  simpa [containsMeta] using h

/-- `strip_prefix` succeeds exactly on texts that start with the literal. -/
theorem stripPrefix_eq_some {s lit rest : String} :
    stripPrefix s lit = some rest ↔ s.toList = lit.toList ++ rest.toList := by
  unfold stripPrefix
  split
  · next h =>
      have hsplit : s.toList = lit.toList ++ s.toList.drop lit.toList.length := by
        conv_lhs => rw [← List.take_append_drop lit.toList.length s.toList, h]
      constructor
      · intro heq
        obtain rfl := Option.some.inj heq
        rw [String.toList_ofList]
        exact hsplit
      · intro heq
        rw [heq, List.drop_left, String.ofList_toList]
  · next h =>
      constructor
      · intro heq
        cases heq
      · intro heq
        rw [heq, List.take_left] at h
        exact absurd rfl h

theorem stripSuffix_eq_some {s lit rest : String} (h : stripSuffix s lit = some rest) :
    s.toList = rest.toList ++ lit.toList := by
  simp only [stripSuffix] at h
  split at h
  · next hdrop =>
      obtain rfl := Option.some.inj h
      have hsplit := List.take_append_drop (s.toList.length - lit.toList.length) s.toList
      rw [hdrop] at hsplit
      rw [String.toList_ofList]
      exact hsplit.symm
  · cases h

/-! ## Matching -/

section Matching

variable {E : Engine} (hdoc : E.Documented)

include hdoc in
/-- A pattern of the fragment decides as its language does. -/
theorem isMatch_iff_lang (re : AnchoredRegex E) {p : List Piece} (hp : WellFormed p)
    (hsource : re.source.toList = print p) (value : String) :
    E.isMatch re.regex value = true ↔ Lang p value.toList := by
  refine hdoc.isMatch_anchored p re.regex value hp ?_
  rw [← hsource, String.ofList_toList]
  exact re.compiled

include hdoc in
/-- A pattern without metacharacters matches itself and nothing else. -/
theorem isMatch_literal {re : AnchoredRegex E} (hmeta : containsMeta re.source = false)
    (value : String) : E.isMatch re.regex value = true ↔ value = re.source := by
  have hp := wellFormed_literal (containsMeta_eq_false hmeta)
  rw [isMatch_iff_lang hdoc re hp (print_literal _).symm, lang_literal, String.toList_inj]

theorem classify_eq_literal {pattern : String} (h : classify pattern = .literal) :
    containsMeta pattern = false := by
  unfold classify at h
  split at h
  · next hmeta => simpa using hmeta
  · split at h
    · split at h <;> cases h
    · cases h

theorem classify_eq_literalPrefix {pattern lit : String} (h : classify pattern = .literalPrefix lit) :
    containsMeta lit = false ∧ pattern.toList = lit.toList ++ ['.', '*'] := by
  unfold classify at h
  split at h
  · cases h
  · split at h
    · next rest hstrip =>
        split at h
        · next hmeta =>
            obtain rfl := PatternKind.literalPrefix.inj h
            exact ⟨by simpa using hmeta, stripSuffix_eq_some hstrip⟩
        · cases h
    · cases h

include hdoc in
/-- **The plain string comparisons decide as the engine does.** -/
theorem matches_eq_isMatch (re : AnchoredRegex E) (value : String) :
    re.matches value = E.isMatch re.regex value := by
  rw [Bool.eq_iff_iff]
  have hkind := re.classified
  unfold AnchoredRegex.matches
  split
  · next hlit =>
      rw [isMatch_literal hdoc (classify_eq_literal (hkind.symm.trans hlit)), beq_iff_eq]
  · next lit hlit =>
      obtain ⟨hmeta, hsource⟩ := classify_eq_literalPrefix (hkind.symm.trans hlit)
      have hp : WellFormed (literal lit.toList ++ [.anyStar]) := by
        intro c hc
        rcases List.mem_append.1 hc with hc | hc
        · exact wellFormed_literal (containsMeta_eq_false hmeta) c hc
        · simp at hc
      rw [isMatch_iff_lang hdoc re hp (by rw [hsource, print_append, print_literal]; rfl),
        lang_literal_append]
      -- what follows the literal may be anything without a newline
      constructor
      · intro h
        split at h
        · next rest hstrip =>
            refine ⟨rest.toList, (lang_anyStar _).2 ?_, stripPrefix_eq_some.1 hstrip⟩
            rw [← containsChar_iff]
            simpa using h
        · cases h
      · rintro ⟨v, hv, heq⟩
        have hstrip : stripPrefix value lit = some (String.ofList v) :=
          stripPrefix_eq_some.2 (by rw [heq, String.toList_ofList])
        have hnl : containsChar (String.ofList v) '\n' = false := by
          rw [Bool.eq_false_iff, ne_eq, containsChar_iff, String.toList_ofList]
          exact (lang_anyStar v).1 hv
        rw [hstrip]
        simp [hnl]
  · rfl

/-! ## The shortcuts of `replace` -/

include hdoc in
/-- The rules' default regex `(.*)` captures every text without a newline, as group 1. -/
theorem captures_default {re : AnchoredRegex E} (hsource : re.source = "(.*)") (joined : String) :
    (containsChar joined '\n' = true → E.captures re.regex joined = none) ∧
      (containsChar joined '\n' = false → ∃ caps, E.captures re.regex joined = some caps ∧
        E.expand caps "$1" = joined ∧ E.expand caps "${1}" = joined) := by
  have hp : WellFormed [.anyStar] := by
    intro c hc
    simp at hc
  have hcompiled : E.compile (anchor (String.ofList ('(' :: print [.anyStar] ++ [')'])))
      = some re.regex := by
    have htext : String.ofList ('(' :: print [.anyStar] ++ [')']) = re.source := by
      rw [hsource]
      rfl
    rw [htext]
    exact re.compiled
  have hmatch := hdoc.isMatch_group _ _ joined hp hcompiled
  rw [lang_anyStar, ← containsChar_iff, hdoc.isMatch_eq] at hmatch
  constructor
  · intro hnl
    rw [← Option.not_isSome_iff_eq_none, hmatch]
    exact fun h => h hnl
  · intro hnl
    obtain ⟨caps, hcaps⟩ := Option.isSome_iff_exists.1 (hmatch.2 (by simp [hnl]))
    exact ⟨caps, hcaps, hdoc.expand_group _ _ _ _ hp hcompiled hcaps⟩

include hdoc in
theorem expand_of_plain {caps : E.Captures} {template : String}
    (h : containsChar template '$' = false) : E.expand caps template = template :=
  hdoc.expand_plain caps template (by
    rw [← containsChar_iff, h]
    exact Bool.false_ne_true)

include hdoc in
/-- The literal shortcut: no captures to expand, and a match is an equality. -/
theorem replaceByLiteral_eq (set : LabelSet) (config : RelabelConfig E) :
    replaceByLiteral set config (set.join config.sourceLabels config.separator)
      = refReplace set config := by
  unfold replaceByLiteral
  split
  · next h =>
      obtain ⟨hkind, htarget, hreplacement⟩ := h
      have hmeta := classify_eq_literal (config.regex.classified.symm.trans hkind)
      have hmatch := isMatch_literal hdoc hmeta
        (set.join config.sourceLabels config.separator)
      rw [hdoc.isMatch_eq] at hmatch
      rw [Bool.not_eq_true'] at htarget hreplacement
      unfold refReplace
      split
      · next hne =>
          have hnone := Option.not_isSome_iff_eq_none.1 (fun hs => hne (hmatch.1 hs))
          rw [hnone]
      · next heq =>
          obtain ⟨caps, hcaps⟩ := Option.isSome_iff_exists.1 (hmatch.2 (not_not.1 heq))
          rw [hcaps]
          dsimp only
          rw [expand_of_plain hdoc htarget, expand_of_plain hdoc hreplacement]
          rfl
  · rfl

include hdoc in
theorem copiedValue_eq_expand {config : RelabelConfig E} {joined value : String} {caps : E.Captures}
    (hcopied : copiedValue config joined = some value)
    (hgroup : E.expand caps "$1" = joined ∧ E.expand caps "${1}" = joined) :
    E.expand caps config.replacement = value := by
  unfold copiedValue at hcopied
  split at hcopied
  · next hgroup1 =>
      obtain rfl := Option.some.inj hcopied
      rcases hgroup1 with h | h
      · rw [h, hgroup.1]
      · rw [h, hgroup.2]
  · split at hcopied
    · next hplain =>
        obtain rfl := Option.some.inj hcopied
        exact expand_of_plain hdoc (by simpa using hplain)
    · cases hcopied

include hdoc in
/-- **`replace` with its shortcuts is captures and expansion.** -/
theorem applyReplace_eq_refReplace (set : LabelSet) (config : RelabelConfig E) :
    applyReplace set config = refReplace set config := by
  simp only [applyReplace]
  split
  · next h =>
      obtain ⟨hsource, htarget⟩ := h
      rw [Bool.not_eq_true'] at htarget
      obtain ⟨hnewline, hcaptures⟩ := captures_default hdoc hsource
        (set.join config.sourceLabels config.separator)
      split
      · next hnl =>
          unfold refReplace
          rw [hnewline hnl]
      · next hnl =>
          split
          · next value hcopied =>
              obtain ⟨caps, hcaps, hgroup⟩ := hcaptures (by simpa using hnl)
              unfold refReplace
              rw [hcaps]
              dsimp only
              rw [expand_of_plain hdoc htarget, copiedValue_eq_expand hdoc hcopied hgroup]
              rfl
          · exact replaceByLiteral_eq hdoc set config
  · exact replaceByLiteral_eq hdoc set config

end Matching

/-! ## Rule lists -/

theorem apply_eq_refApply (deps : RelabelDeps) (hdoc : deps.engine.Documented) (set : LabelSet)
    (config : RelabelConfig deps.engine) : apply deps set config = refApply deps set config := by
  unfold apply refApply
  cases config.action
  case replace => simp only [applyReplace_eq_refReplace hdoc]
  case keep | drop | labelDrop | labelKeep => simp only [matches_eq_isMatch hdoc]
  all_goals rfl

theorem applyAll_eq_refApplyAll (deps : RelabelDeps) (hdoc : deps.engine.Documented)
    (configs : List (RelabelConfig deps.engine)) (set : LabelSet) :
    applyAll deps set configs = refApplyAll deps set configs := by
  induction configs generalizing set with
  | nil => rfl
  | cons config rest ih =>
      rw [applyAll, refApplyAll, apply_eq_refApply deps hdoc]
      -- a fault, a dropped series, or a label set for the remaining rules
      rcases refApply deps set config with fault | (_ | set')
      · rfl
      · rfl
      · exact ih set'

/-- **Relabeling agrees with the same rules run without any shortcut**, on every rule list and label
    list, faults included. -/
theorem process_eq_refProcess (deps : RelabelDeps) (hdoc : deps.engine.Documented)
    (labels : List Label) (configs : List (RelabelConfig deps.engine)) :
    process deps labels configs = refProcess deps labels configs := by
  have hrules := applyAll_eq_refApplyAll deps hdoc configs labels
  rw [process, refProcess]
  generalize applyAll deps labels configs = result at hrules ⊢
  subst hrules
  rfl

/-- Relabeling over the engine of the documented fragment. -/
def fragmentDeps : RelabelDeps where
  engine := fragmentEngine
  md5 := fun _ => Vector.replicate 16 0
  toLowercase := id
  toUppercase := id

/-- A rule list through every shortcut: literal prefix, default regex, literal rule. -/
def shortcutRules : List (RelabelConfig fragmentDeps.engine) :=
  match AnchoredRegex.new "go_.*", AnchoredRegex.new "(.*)", AnchoredRegex.new "AA" with
  | some goPrefix, some default, some literal =>
      [{ sourceLabels := ["__name__"], regex := goPrefix, action := .keep },
        { sourceLabels := ["mac"], targetLabel := "addr", regex := default },
        { sourceLabels := ["mac"], targetLabel := "ap", replacement := "kitchen", regex := literal }]
  | _, _, _ => []

theorem process_eq_refProcess_shortcutRules :
    fragmentDeps.engine.Documented ∧ shortcutRules.length = 3 ∧
      process fragmentDeps [⟨"__name__", "go_gc"⟩, ⟨"mac", "AA"⟩] shortcutRules
        = refProcess fragmentDeps [⟨"__name__", "go_gc"⟩, ⟨"mac", "AA"⟩] shortcutRules :=
  ⟨fragmentEngine_documented, by decide +kernel,
    process_eq_refProcess fragmentDeps fragmentEngine_documented _ _⟩

end PromScrape
