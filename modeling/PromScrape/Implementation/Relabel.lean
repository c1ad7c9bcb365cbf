import PromScrape.Library.Regex
import PromScrape.Implementation.Model

set_option autoImplicit false

/-! # Relabeling (`src/relabel.rs`)

Rules applied in order to a working label set, with the source's shortcuts around the regex engine:
literal patterns, literal prefixes, the default regex, and literal rules with plain replacements.

The engine, MD5 and Unicode case mapping are not the repository's; they come in as `RelabelDeps`. A
rule that divides by zero panics, which is the `Fault` here. -/

namespace PromScrape

open Utf8 (utf8Bytes)
open Regex (Engine anchor metaChars)

/-- What relabeling calls outside the repository. -/
structure RelabelDeps where
  engine : Engine
  md5 : List UInt8 → Vector UInt8 16
  toLowercase : String → String
  toUppercase : String → String

inductive Action where
  | replace
  | keep
  | drop
  | keepEqual
  | dropEqual
  | hashMod
  | labelMap
  | labelDrop
  | labelKeep
  | lowercase
  | uppercase
deriving DecidableEq, Repr

/-- The action's name in `{:?}` form. -/
def Action.debug : Action → String
  | .replace => "Replace"
  | .keep => "Keep"
  | .drop => "Drop"
  | .keepEqual => "KeepEqual"
  | .dropEqual => "DropEqual"
  | .hashMod => "HashMod"
  | .labelMap => "LabelMap"
  | .labelDrop => "LabelDrop"
  | .labelKeep => "LabelKeep"
  | .lowercase => "Lowercase"
  | .uppercase => "Uppercase"

/-! ## Anchored regexes -/

/-- Structural classification of a pattern, decided once at construction. -/
inductive PatternKind where
  /-- No metacharacters: an anchored match is string equality. -/
  | literal
  /-- A literal followed by `.*`. -/
  | literalPrefix (lit : String)
  /-- Anything else goes through the regex engine. -/
  | general
deriving DecidableEq, Repr

/-- `str::contains` for one character. -/
def containsChar (s : String) (c : Char) : Bool := s.toList.contains c

/-- `pattern.contains(REGEX_META)`. -/
def containsMeta (pattern : String) : Bool := pattern.toList.any (· ∈ metaChars)

/-- `str::strip_prefix`. -/
def stripPrefix (s lit : String) : Option String :=
  if s.toList.take lit.toList.length = lit.toList then
    some (String.ofList (s.toList.drop lit.toList.length))
  else none

/-- `str::strip_suffix`. -/
def stripSuffix (s lit : String) : Option String :=
  let cut := s.toList.length - lit.toList.length
  if s.toList.drop cut = lit.toList then some (String.ofList (s.toList.take cut)) else none

def classify (pattern : String) : PatternKind :=
  if !containsMeta pattern then .literal
  else
    match stripSuffix pattern ".*" with
    | some lit => if !containsMeta lit then .literalPrefix lit else .general
    | none => .general

/-- A regex that is fully anchored, like Prometheus relabel regexes. It can only be built from its
    source: the compiled form and the kind are those of `source`. -/
structure AnchoredRegex (E : Engine) where
  source : String
  regex : E.Compiled
  kind : PatternKind
  compiled : E.compile (anchor source) = some regex
  classified : kind = classify source

/-- `AnchoredRegex::new`; nothing when the pattern does not compile. -/
def AnchoredRegex.new {E : Engine} (pattern : String) : Option (AnchoredRegex E) :=
  match h : E.compile (anchor pattern) with
  | some regex => some ⟨pattern, regex, classify pattern, h, rfl⟩
  | none => none

/-- Whether the anchored pattern matches all of `value`. -/
def AnchoredRegex.matches {E : Engine} (re : AnchoredRegex E) (value : String) : Bool :=
  match re.kind with
  | .literal => value == re.source
  | .literalPrefix lit =>
      match stripPrefix value lit with
      | some rest => !containsChar rest '\n'
      | none => false
  | .general => E.isMatch re.regex value

/-! ## Rules -/

/-- A single relabeling rule. -/
structure RelabelConfig (E : Engine) where
  sourceLabels : List String := []
  separator : String := ";"
  targetLabel : String := ""
  regex : AnchoredRegex E
  modulus : UInt64 := 0
  replacement : String := "$1"
  action : Action := .replace

/-- `RelabelConfig::validate`. -/
def RelabelConfig.validate {E : Engine} (config : RelabelConfig E) : Except String Unit :=
  match config.action with
  | .hashMod =>
      if config.modulus = 0 then .error "relabel action hashmod requires modulus > 0"
      else if config.targetLabel.isEmpty then .error "relabel action hashmod requires target_label"
      else .ok ()
  | .replace | .lowercase | .uppercase | .keepEqual | .dropEqual =>
      if config.targetLabel.isEmpty then
        .error ("relabel action " ++ config.action.debug ++ " requires target_label")
      else .ok ()
  | .keep | .drop | .labelMap | .labelDrop | .labelKeep => .ok ()

/-! ## The working label set -/

abbrev LabelSet := List Label

def LabelSet.get (set : LabelSet) (name : String) : String :=
  match set.find? (fun label => label.name == name) with
  | some label => label.value
  | none => ""

/-- Set `name` to `value`, overwriting any existing label of that name. -/
def LabelSet.set : LabelSet → String → String → LabelSet
  | [], name, value => [⟨name, value⟩]
  | label :: rest, name, value =>
      if label.name == name then { label with value := value } :: rest
      else label :: LabelSet.set rest name value

def LabelSet.remove (set : LabelSet) (name : String) : LabelSet :=
  set.filter (fun label => label.name != name)

/-- Join the values of `sourceLabels`; a missing label contributes the empty string. -/
def LabelSet.join (set : LabelSet) (sourceLabels : List String) (separator : String) : String :=
  separator.intercalate (sourceLabels.map set.get)

def isAsciiAlpha (c : Char) : Bool := ('a' ≤ c && c ≤ 'z') || ('A' ≤ c && c ≤ 'Z')

def isAsciiDigit (c : Char) : Bool := '0' ≤ c && c ≤ '9'

/-- The label name syntax `[a-zA-Z_][a-zA-Z0-9_]*`. -/
def isValidLabelName (name : String) : Bool :=
  match name.toList with
  | [] => false
  | c :: rest =>
      (c == '_' || isAsciiAlpha c) && rest.all (fun c => c == '_' || isAsciiAlpha c || isAsciiDigit c)

/-! ## Actions -/

/-- What aborts the process. -/
inductive Fault where
  | divisionByZero
deriving DecidableEq, Repr

/-- Bytes 8..16 of the MD5 digest, big-endian, reduced modulo `modulus`. -/
def hashMod (deps : RelabelDeps) (val : String) (modulus : UInt64) : Except Fault UInt64 :=
  let bytes := ((deps.md5 (utf8Bytes val)).toList.drop 8).take 8
  let hash := UInt64.ofNat (bytes.foldl (fun acc byte => acc * 256 + byte.toNat) 0)
  if modulus = 0 then .error .divisionByZero else .ok (hash % modulus)

/-- The rule's outcome for a target label and a replacement already expanded. -/
def setOrRemove (set : LabelSet) (target value : String) : LabelSet :=
  if value.isEmpty then set.remove target else set.set target value

/-- `apply_replace` past its shortcuts: captures, then expansion. -/
def replaceByCaptures {E : Engine} (set : LabelSet) (config : RelabelConfig E) (joined : String) :
    LabelSet :=
  match E.captures config.regex.regex joined with
  | none => set
  | some caps =>
      let target := E.expand caps config.targetLabel
      if !isValidLabelName target then set
      else setOrRemove set target (E.expand caps config.replacement)

/-- The shortcut for literal regexes with plain replacements, and the general path after it. -/
def replaceByLiteral {E : Engine} (set : LabelSet) (config : RelabelConfig E) (joined : String) :
    LabelSet :=
  if config.regex.kind = .literal ∧ !containsChar config.targetLabel '$' ∧
      !containsChar config.replacement '$' then
    if joined ≠ config.regex.source then set
    else if !isValidLabelName config.targetLabel then set
    else setOrRemove set config.targetLabel config.replacement
  else replaceByCaptures set config joined

/-- The value the default-regex shortcut copies, if the replacement is simple enough. -/
def copiedValue {E : Engine} (config : RelabelConfig E) (joined : String) : Option String :=
  if config.replacement = "$1" ∨ config.replacement = "${1}" then some joined
  else if !containsChar config.replacement '$' then some config.replacement
  else none

/-- The `replace` action. -/
def applyReplace {E : Engine} (set : LabelSet) (config : RelabelConfig E) : LabelSet :=
  let joined := set.join config.sourceLabels config.separator
  if config.regex.source = "(.*)" ∧ !containsChar config.targetLabel '$' then
    if containsChar joined '\n' then set
    else
      match copiedValue config joined with
      | some value =>
          if !isValidLabelName config.targetLabel then set
          else setOrRemove set config.targetLabel value
      | none => replaceByLiteral set config joined
  else replaceByLiteral set config joined

/-- The labels `labelmap` sets: one for each label name the regex captures. -/
def labelMapUpdates {E : Engine} (set : LabelSet) (config : RelabelConfig E) : List Label :=
  set.filterMap (fun label =>
    (E.captures config.regex.regex label.name).map (fun caps =>
      ⟨E.expand caps config.replacement, label.value⟩))

/-- Apply a single rule; `none` when the series is dropped. -/
def apply (deps : RelabelDeps) (set : LabelSet) (config : RelabelConfig deps.engine) :
    Except Fault (Option LabelSet) :=
  let joined := set.join config.sourceLabels config.separator
  match config.action with
  | .replace => .ok (some (applyReplace set config))
  | .keep => .ok (if config.regex.matches joined then some set else none)
  | .drop => .ok (if config.regex.matches joined then none else some set)
  | .keepEqual => .ok (if joined = set.get config.targetLabel then some set else none)
  | .dropEqual => .ok (if joined = set.get config.targetLabel then none else some set)
  | .hashMod =>
      match hashMod deps joined config.modulus with
      | .ok hash => .ok (some (set.set config.targetLabel (toString hash.toNat)))
      | .error fault => .error fault
  | .labelMap =>
      .ok (some ((labelMapUpdates set config).foldl (fun set u => set.set u.name u.value) set))
  | .labelDrop => .ok (some (set.filter (fun label => !config.regex.matches label.name)))
  | .labelKeep => .ok (some (set.filter (fun label => config.regex.matches label.name)))
  | .lowercase => .ok (some (set.set config.targetLabel (deps.toLowercase joined)))
  | .uppercase => .ok (some (set.set config.targetLabel (deps.toUppercase joined)))

/-- The loop of `process` over the rules. -/
def applyAll (deps : RelabelDeps) :
    LabelSet → List (RelabelConfig deps.engine) → Except Fault (Option LabelSet)
  | set, [] => .ok (some set)
  | set, config :: rest =>
      match apply deps set config with
      | .ok (some set) => applyAll deps set rest
      | .ok none => .ok none
      | .error fault => .error fault

/-- Apply `configs` in order to `labels`; labels with empty values are removed afterwards. -/
def process (deps : RelabelDeps) (labels : List Label) (configs : List (RelabelConfig deps.engine)) :
    Except Fault (Option (List Label)) :=
  match applyAll deps labels configs with
  | .ok (some set) => .ok (some (set.filter (fun label => !label.value.isEmpty)))
  | .ok none => .ok none
  | .error fault => .error fault

end PromScrape
