import PromScrape.Implementation.Parser

set_option autoImplicit false

/-! # The text exposition format

The grammar of one line, over characters, and a printer. Nothing here refers to how the parser
works; it supplies only which value and timestamp tokens are accepted and what they denote. -/

namespace PromScrape

open Utf8 (utf8Bytes)

/-! ## Lexical classes -/

def isBlank (c : Char) : Bool := c == ' ' || c == '\t'

/-- `[a-zA-Z_]`, and `:` if `colon`. -/
def isNameHead (colon : Bool) (c : Char) : Bool := c.isAlpha || c == '_' || (colon && c == ':')

/-- `[a-zA-Z0-9_]`, and `:` if `colon`. -/
def isNameTail (colon : Bool) (c : Char) : Bool := isNameHead colon c || c.isDigit

def Blanks (cs : List Char) : Prop := ∀ c ∈ cs, isBlank c = true

/-- A metric name (`colon`) or a label name. -/
def IsName (colon : Bool) (cs : List Char) : Prop :=
  ∃ c rest, cs = c :: rest ∧ isNameHead colon c = true ∧ ∀ d ∈ rest, isNameTail colon d = true

/-- A non-empty run of characters other than blanks. -/
def IsToken (cs : List Char) : Prop := cs ≠ [] ∧ ∀ c ∈ cs, isBlank c = false

/-- The text does not start with a character of the class `p`. -/
def NotStarting (p : Char → Bool) (cs : List Char) : Prop := ∀ c ∈ cs.head?, p c = false

/-! ## Label sets -/

/-- The escape sequences: the character after the backslash, and what it stands for. -/
def escapes : List (Char × Char) := [('\\', '\\'), ('"', '"'), ('n', '\n')]

/-- A quoted value without its quotes, and what it denotes. -/
inductive ValueText : List Char → List Char → Prop where
  | nil : ValueText [] []
  | plain {c : Char} {text value : List Char} (hquote : c ≠ '"') (hescape : c ≠ '\\')
      (rest : ValueText text value) : ValueText (c :: text) (c :: value)
  | escape {e d : Char} {text value : List Char} (hmem : (e, d) ∈ escapes)
      (rest : ValueText text value) : ValueText ('\\' :: e :: text) (d :: value)

/-- `name="value"`, with blanks around every token. -/
inductive PairText : List Char → Label → Prop where
  | mk {b₁ name b₂ b₃ text value b₄ : List Char} (h₁ : Blanks b₁) (hname : IsName false name)
      (h₂ : Blanks b₂) (h₃ : Blanks b₃) (hvalue : ValueText text value) (h₄ : Blanks b₄) :
      PairText (b₁ ++ (name ++ (b₂ ++ '=' :: (b₃ ++ '"' :: (text ++ '"' :: b₄)))))
        ⟨String.ofList name, String.ofList value⟩

/-- Comma-separated pairs; nothing but blanks is no pair, also after a last comma. -/
inductive PairsText : List Char → List Label → Prop where
  | blank {b : List Char} (h : Blanks b) : PairsText b []
  | last {text : List Char} {pair : Label} (h : PairText text pair) : PairsText text [pair]
  | comma {text rest : List Char} {pair : Label} {pairs : List Label} (h : PairText text pair)
      (hrest : PairsText rest pairs) : PairsText (text ++ ',' :: rest) (pair :: pairs)

/-- What a series may be labelled with next to its metric name. -/
structure LegalPairs (pairs : List Label) : Prop where
  length_le : pairs.length ≤ 127
  nodup : (pairs.map (·.name)).Nodup
  not_metricName : metricNameLabel ∉ pairs.map (·.name)

/-- What may stand between a metric name and the value `value`: blanks, or a label set between
blanks. The second argument is the part that belongs to the identity. -/
inductive LabelPart (value : List Char) : List Char → List Char → List Label → Prop where
  | absent {b : List Char} (h : Blanks b) (hbrace : NotStarting (· == '{') value) :
      LabelPart value b [] []
  | present {b₁ inner b₂ : List Char} {pairs : List Label} (h₁ : Blanks b₁)
      (hpairs : PairsText inner pairs) (h₂ : Blanks b₂) :
      LabelPart value (b₁ ++ '{' :: (inner ++ '}' :: b₂)) (b₁ ++ '{' :: (inner ++ ['}'])) pairs

/-! ## Lines -/

/-- The end of a line: blanks, or blanks and an exemplar. -/
inductive EndText : List Char → Prop where
  | blank {b : List Char} (h : Blanks b) : EndText b
  | exemplar {b text : List Char} (h : Blanks b) (hne : b ≠ []) : EndText (b ++ '#' :: text)

/-- What may follow the value: an optional timestamp, then the end. -/
inductive TailText : List Char → Option Int64 → Prop where
  | bare {text : List Char} (h : EndText text) : TailText text none
  | stamped {b tok text : List Char} {timestamp : Int64} (h : Blanks b) (hne : b ≠ [])
      (htok : IsToken tok) (hhash : NotStarting (· == '#') tok)
      (htimestamp : parseTimestamp (String.ofList tok) = some timestamp) (hend : EndText text) :
      TailText (b ++ (tok ++ text)) (some timestamp)

/-- What a sample line says. -/
structure SampleText where
  name : List Char
  /-- The raw text that identifies the series: the name and its label set, if any. -/
  identity : List Char
  pairs : List Label
  value : F64
  timestamp : Option Int64
deriving DecidableEq, Repr

/-- Blank lines and comments. -/
inductive NoSampleLine : List Char → Prop where
  | blank {b : List Char} (h : Blanks b) : NoSampleLine b
  | comment {b text : List Char} (h : Blanks b) : NoSampleLine (b ++ '#' :: text)

/-- The grammar of a sample line. The metric name is the longest possible one. -/
inductive SampleLine : List Char → SampleText → Prop where
  | mk {b name part identity value tail : List Char} {pairs : List Label} {v : F64}
      {timestamp : Option Int64} (h : Blanks b) (hname : IsName true name)
      (hlongest : NotStarting (isNameTail true) (part ++ value))
      (hpart : LabelPart value part identity pairs) (hpairs : LegalPairs pairs)
      (htok : IsToken value) (hvalue : parseValue (String.ofList value) = some v)
      (htail : TailText tail timestamp) :
      SampleLine (b ++ (name ++ (part ++ (value ++ tail))))
        ⟨name, name ++ identity, pairs, v, timestamp⟩

/-- The series a sample line denotes. -/
def SampleText.series (s : SampleText) (defaultTimestampMs : Int64) (honorTimestamps : Bool) :
    TimeSeries where
  labels := ⟨metricNameLabel, String.ofList s.name⟩ :: s.pairs
  sample := {
    value := s.value
    timestamp :=
      if honorTimestamps then s.timestamp.getD defaultTimestampMs else defaultTimestampMs }
  identityHash := (FxHasher.default.write (Utf8.encode s.identity)).finish
  histogram := none

/-! ## Printing -/

/-- A series that can be exposed: valid names, legal labels, a value token the parser accepts, and a
choice of line ending. -/
structure Exposed where
  name : String
  labels : List Label
  token : String
  /-- What the token denotes. -/
  value : F64
  timestamp : Option Int64
  crlf : Bool
  validName : IsName true name.toList
  validLabels : ∀ l ∈ labels, IsName false l.name.toList
  legal : LegalPairs labels
  accepted : parseValue token = some value

/-- Escape backslash, double quote and newline. -/
def printChar (c : Char) : List Char :=
  if c = '\\' then ['\\', '\\']
  else if c = '"' then ['\\', '"']
  else if c = '\n' then ['\\', 'n']
  else [c]

def printValue (value : List Char) : List Char := value.flatMap printChar

def printPair (l : Label) : List Char :=
  l.name.toList ++ '=' :: '"' :: (printValue l.value.toList ++ ['"'])

def printPairs : List Label → List Char
  | [] => []
  | [l] => printPair l
  | l :: rest => printPair l ++ ',' :: printPairs rest

/-- The name and, if there are labels, the label set. -/
def Exposed.printIdentity (s : Exposed) : List Char :=
  if s.labels = [] then s.name.toList else s.name.toList ++ '{' :: (printPairs s.labels ++ ['}'])

def Exposed.printTimestamp (s : Exposed) : List Char :=
  match s.timestamp with
  | none => []
  | some t => ' ' :: (toString t.toInt).toList

/-- One line, without its end. -/
def Exposed.printLine (s : Exposed) : List Char :=
  s.printIdentity ++ ' ' :: (s.token.toList ++ s.printTimestamp)

def Exposed.print (s : Exposed) : List Char :=
  s.printLine ++ if s.crlf then ['\r', '\n'] else ['\n']

/-- The body with one line for each series. -/
def printBody (exposed : List Exposed) : String := String.ofList (exposed.flatMap Exposed.print)

/-- The series that is exposed. -/
def Exposed.series (s : Exposed) (defaultTimestampMs : Int64) : TimeSeries where
  labels := ⟨metricNameLabel, s.name⟩ :: s.labels
  sample := { value := s.value, timestamp := s.timestamp.getD defaultTimestampMs }
  identityHash := (FxHasher.default.write (Utf8.encode s.printIdentity)).finish
  histogram := none

end PromScrape
