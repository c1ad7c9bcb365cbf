import PromScrape.Library.Numerals
import PromScrape.Library.Scan
import PromScrape.Implementation.Hash
import PromScrape.Implementation.Model

set_option autoImplicit false

/-! # The text exposition format parser (`src/parser.rs`)

A single pass over the bytes of the body with explicit indices. The body is a `&str`, so below it is
the byte list of a string; every slice is checked for character boundaries as in the source. Each
loop carries its bound as a structural argument, and an index or slice out of bounds is a `panic`. -/

namespace PromScrape

open Utf8 (utf8Bytes)
open Numerals (f64FromStr i64FromStr)

/-! ## Errors -/

/-- What is wrong with a line, with the data its message shows. -/
inductive ParseErrorKind where
  | invalidMetricStart (b : UInt8)
  | missingValue
  | invalidValue (tok : String)
  | invalidTimestamp (tok : String)
  | trailingContent (text : String)
  | duplicateLabel (name : String)
  | tooManyLabels
  | unterminatedLabelSet
  | invalidLabelStart (b : UInt8)
  | metricNameInBraces
  | expectedEquals (name : String)
  | expectedQuote (name : String)
  | expectedCommaOrBrace (b : UInt8)
  | unterminatedLabelValue
  | trailingBackslash
  | invalidEscape (b : UInt8)
  | invalidBoundary
deriving DecidableEq, Repr

structure ParseError where
  /-- 1-based. -/
  line : Nat
  kind : ParseErrorKind
deriving DecidableEq, Repr

/-- Hard cap on the labels of a single series, `__name__` included. -/
def maxLabelsPerSeries : Nat := 128

/-- Label count up to which duplicate names are detected with a linear scan. -/
def duplicateScanLinearLimit : Nat := 32

/-- `b as char`. -/
def byteChar (b : UInt8) : Char := Char.ofNat b.toNat

/-- The message, given the `{:?}` forms of characters and strings. -/
def ParseErrorKind.message (debugChar : Char → String) (debugStr : String → String) :
    ParseErrorKind → String
  | .invalidMetricStart b => "invalid start of metric name: " ++ debugChar (byteChar b)
  | .missingValue => "missing value"
  | .invalidValue tok => "invalid value: " ++ debugStr tok
  | .invalidTimestamp tok => "invalid timestamp: " ++ debugStr tok
  | .trailingContent text => "unexpected trailing content: " ++ debugStr text
  | .duplicateLabel name => "duplicate label name: " ++ debugStr name
  | .tooManyLabels => "too many labels (limit " ++ toString maxLabelsPerSeries ++ ")"
  | .unterminatedLabelSet => "unterminated label set (expected '\x7d')"
  | .invalidLabelStart b => "invalid start of label name: " ++ debugChar (byteChar b)
  | .metricNameInBraces => "label name '__name__' is not allowed inside braces"
  | .expectedEquals name => "expected '=' after label name " ++ debugStr name
  | .expectedQuote name => "expected '\"' to start value of label " ++ debugStr name
  | .expectedCommaOrBrace b =>
      "expected ',' or '\x7d' after label value, found " ++ debugChar (byteChar b)
  | .unterminatedLabelValue => "unterminated label value (missing closing '\"')"
  | .trailingBackslash => "unterminated label value (trailing backslash)"
  | .invalidEscape b => "invalid escape sequence: \\" ++ String.singleton (byteChar b)
  | .invalidBoundary => "invalid UTF-8 boundary in label value"

/-- Why parsing stopped. -/
inductive ParseFail where
  | error (e : ParseError)
  /-- An index or slice out of bounds, or a loop past its bound. -/
  | panic
deriving DecidableEq, Repr

def parseError {α : Type} (line : Nat) (kind : ParseErrorKind) : Except ParseFail α :=
  .error (.error ⟨line, kind⟩)

def orPanic {α : Type} : Option α → Except ParseFail α
  | some a => .ok a
  | none => .error .panic

/-! ## Bytes -/

/-- An ASCII character as a byte literal. -/
def byte (c : Char) : UInt8 := UInt8.ofNat c.toNat

/-- ASCII space or tab. -/
def isSpace (b : UInt8) : Bool := b == byte ' ' || b == byte '\t'

def isAsciiAlphabetic (b : UInt8) : Bool :=
  (byte 'a' ≤ b && b ≤ byte 'z') || (byte 'A' ≤ b && b ≤ byte 'Z')

def isAsciiDigitByte (b : UInt8) : Bool := byte '0' ≤ b && b ≤ byte '9'

def nameStartBit : UInt8 := 1
def nameContinueBit : UInt8 := 2
def nameColonBit : UInt8 := 4

/-- The class table, `NAME_CLASS[b]`. -/
def nameClass (b : UInt8) : UInt8 :=
  if isAsciiAlphabetic b || b == byte '_' then nameStartBit ||| nameContinueBit
  else if isAsciiDigitByte b then nameContinueBit
  else if b == byte ':' then nameColonBit
  else 0

def isNameStart (b : UInt8) (allowColon : Bool) : Bool :=
  nameClass b &&& nameStartBit != 0 || (allowColon && nameClass b &&& nameColonBit != 0)

def isNameContinue (b : UInt8) (allowColon : Bool) : Bool :=
  nameClass b &&& nameContinueBit != 0 || (allowColon && nameClass b &&& nameColonBit != 0)

/-- Whether the text format accepts `name` as a metric name (`allowColon`) or label name. -/
def isValidName (name : String) (allowColon : Bool) : Bool :=
  match utf8Bytes name with
  | [] => false
  | b :: rest => isNameStart b allowColon && rest.all (isNameContinue · allowColon)

/-- `bytes[i]`. -/
def byteAt (bytes : List UInt8) (i : Nat) : Except ParseFail UInt8 := orPanic bytes[i]?

/-- `while i < stop && p(bytes[i]) { i += 1 }`. -/
def skip (bytes : List UInt8) (stop : Nat) (p : UInt8 → Bool) (i : Nat) : Except ParseFail Nat :=
  orPanic (Scan.skipWhile p bytes stop i)

/-- `i < stop && bytes[i] == c`. -/
def lookingAt (bytes : List UInt8) (stop i : Nat) (c : UInt8) : Except ParseFail Bool :=
  if i < stop then (byteAt bytes i).map (· == c) else .ok false

/-- `str_from`: a slice between offsets that are boundaries by construction. -/
def strFrom (bytes : List UInt8) (start stop : Nat) : String := (Scan.get bytes start stop).getD ""

/-- `utf8_from`: a slice of a label value. -/
def utf8From (bytes : List UInt8) (start stop lineNo : Nat) : Except ParseFail String :=
  match Scan.get bytes start stop with
  | some s => .ok s
  | none => parseError lineNo .invalidBoundary

/-! ## Values and timestamps -/

/-- `str::strip_prefix('+')`. -/
def stripPlus (tok : String) : Option String :=
  match tok.toList with
  | '+' :: rest => some (String.ofList rest)
  | _ => none

/-- Parse a metric value: directly, or with one leading `+` stripped. -/
def parseValue (tok : String) : Option F64 :=
  if tok = "" then none
  else
    match f64FromStr tok with
    | some v => some v
    | none => (stripPlus tok).bind f64FromStr

/-- `f64::round`, half away from zero, as an exact integer; `none` of infinities and NaN. -/
def roundToInt (x : Float.Model) : Option Int :=
  match x.unpack with
  | .infinity _ => none
  | .notANumber => none
  | .zero _ => some 0
  | .finite sign mantissa exponent _ =>
      let magnitude : Nat :=
        if 0 ≤ exponent then mantissa * 2 ^ exponent.toNat
        else (2 * mantissa + 2 ^ (-exponent).toNat) / 2 ^ ((-exponent).toNat + 1)
      some (sign.apply magnitude)

/-- Seconds to milliseconds, rounded; the cast saturates at the upper end of the accepted range. -/
def secondsToMillis (secs : F64) : Option Int64 := do
  let secs := Float.Model.ofBits secs.bits
  let ms ← if secs.isFinite then roundToInt (secs.mul (Float.Model.ofNat 1000)) else none
  if -2 ^ 63 ≤ ms ∧ ms ≤ 2 ^ 63 then some (Int64.ofIntClamp ms) else none

/-- Parse a timestamp token into milliseconds: a token with `.`, `e` or `E` is in seconds. -/
def parseTimestamp (tok : String) : Option Int64 :=
  if tok = "" then none
  else if (utf8Bytes tok).any (fun b => b == byte '.' || b == byte 'e' || b == byte 'E') then
    (f64FromStr tok).bind secondsToMillis
  else i64FromStr tok

/-! ## Label values -/

/-- `memchr2`. -/
def memchr2 (x y : UInt8) (hay : List UInt8) : Option Nat := hay.findIdx? (fun b => b == x || b == y)

/-- Scan for the closing quote, noting whether any escape is present. -/
def scanQuote (bytes : List UInt8) (stop lineNo : Nat) :
    Nat → Nat → Bool → Except ParseFail (Nat × Bool)
  | 0, _, _ => .error .panic
  | n + 1, i, hasEscape =>
      match memchr2 (byte '"') (byte '\\') (Scan.slice bytes i stop) with
      | none => parseError lineNo .unterminatedLabelValue
      | some offset => do
          let b ← byteAt bytes (i + offset)
          if b == byte '"' then .ok (i + offset, hasEscape)
          else if stop ≤ i + offset + 1 then parseError lineNo .trailingBackslash
          else scanQuote bytes stop lineNo n (i + offset + 2) true

/-- The character an escape denotes. -/
def escapeChar (lineNo : Nat) (b : UInt8) : Except ParseFail String :=
  if b == byte '\\' then .ok "\\"
  else if b == byte '"' then .ok "\""
  else if b == byte 'n' then .ok "\n"
  else parseError lineNo (.invalidEscape b)

/-- Decode the escapes in `raw`, which starts at `contentStart` in the body, from index `j` on. -/
def unescape (bytes : List UInt8) (contentStart : Nat) (raw : List UInt8) (lineNo : Nat) :
    Nat → Nat → String → Except ParseFail String
  | 0, j, decoded => if raw.length ≤ j then .ok decoded else .error .panic
  | n + 1, j, decoded =>
      if raw.length ≤ j then .ok decoded
      else do
        let b ← byteAt raw j
        if b == byte '\\' then
          let e ← byteAt raw (j + 1)
          let c ← escapeChar lineNo e
          unescape bytes contentStart raw lineNo n (j + 2) (decoded ++ c)
        else
          let runEnd ← skip raw raw.length (· != byte '\\') j
          let run ← utf8From bytes (contentStart + j) (contentStart + runEnd) lineNo
          unescape bytes contentStart raw lineNo n runEnd (decoded ++ run)

/-- Parse a double-quoted label value whose opening quote is at `open`: the value and the index past
the closing quote. -/
def parseLabelValue (bytes : List UInt8) (start stop lineNo : Nat) :
    Except ParseFail (String × Nat) := do
  let contentStart := start + 1
  let (close, hasEscape) ← scanQuote bytes stop lineNo (stop + 1 - contentStart) contentStart false
  if !hasEscape then
    let s ← utf8From bytes contentStart close lineNo
    .ok (s, close + 1)
  else
    let raw := Scan.slice bytes contentStart close
    let decoded ← unescape bytes contentStart raw lineNo raw.length 0 ""
    .ok (decoded, close + 1)

/-! ## Label sets -/

/-- Reject a repeated label name, or one past the cap. -/
def checkLabelName (name : String) (lineNo : Nat) (labels : List Label)
    (seen : Option (List String)) : Except ParseFail Unit :=
  let duplicate :=
    match seen with
    | some seen => seen.contains name
    | none => labels.any (·.name == name)
  if duplicate then parseError lineNo (.duplicateLabel name)
  else if maxLabelsPerSeries ≤ labels.length then parseError lineNo .tooManyLabels
  else .ok ()

/-- Record the name just appended in the duplicate index, which is built past the linear limit. -/
def recordLabelName (name : String) (labels : List Label) (seen : Option (List String)) :
    Option (List String) :=
  match seen with
  | some seen => some (seen.insert name)
  | none =>
      if duplicateScanLinearLimit < labels.length then some (labels.map (·.name)) else none

/-- A label name at `i`, checked; the index past it. -/
def parseLabelName (bytes : List UInt8) (stop lineNo : Nat) (labels : List Label)
    (seen : Option (List String)) (i : Nat) : Except ParseFail (String × Nat) := do
  let b ← byteAt bytes i
  if !isNameStart b false then parseError lineNo (.invalidLabelStart b)
  else
    let next ← skip bytes stop (isNameContinue · false) (i + 1)
    let name := strFrom bytes i next
    if name = metricNameLabel then parseError lineNo .metricNameInBraces
    else
      checkLabelName name lineNo labels seen
      .ok (name, next)

/-- Blanks and one required byte; the index past it. -/
def expectByte (bytes : List UInt8) (stop lineNo : Nat) (c : UInt8) (kind : ParseErrorKind)
    (i : Nat) : Except ParseFail Nat := do
  let i ← skip bytes stop isSpace i
  if ← lookingAt bytes stop i c then .ok (i + 1) else parseError lineNo kind

/-- The rounds of `parse_labels`; the labels so far start with the metric name. -/
def parseLabelsLoop (bytes : List UInt8) (stop lineNo : Nat) :
    Nat → Nat → List Label → Option (List String) → Except ParseFail (Nat × List Label)
  | 0, _, _, _ => .error .panic
  | n + 1, i, labels, seen => do
      let i ← skip bytes stop isSpace i
      if stop ≤ i then parseError lineNo .unterminatedLabelSet
      else if (← byteAt bytes i) == byte '}' then .ok (i + 1, labels)
      else
        let (name, i) ← parseLabelName bytes stop lineNo labels seen i
        let i ← expectByte bytes stop lineNo (byte '=') (.expectedEquals name) i
        let i ← expectByte bytes stop lineNo (byte '"') (.expectedQuote name) i
        let (value, i) ← parseLabelValue bytes (i - 1) stop lineNo
        let labels := labels ++ [⟨name, value⟩]
        let seen := recordLabelName name labels seen
        let i ← skip bytes stop isSpace i
        if stop ≤ i then parseError lineNo .unterminatedLabelSet
        else
          let b ← byteAt bytes i
          if b == byte ',' then parseLabelsLoop bytes stop lineNo n (i + 1) labels seen
          else if b == byte '}' then .ok (i + 1, labels)
          else parseError lineNo (.expectedCommaOrBrace b)

/-- Parse the label set whose `{` is at `start`: the index past the closing brace. -/
def parseLabels (bytes : List UInt8) (start stop lineNo : Nat) (labels : List Label) :
    Except ParseFail (Nat × List Label) :=
  parseLabelsLoop bytes stop lineNo (stop - start) (start + 1) labels none

/-! ## Lines -/

/-- The value token at `i`: its value, and the index past the blanks that follow it. -/
def parseLineValue (bytes : List UInt8) (stop lineNo i : Nat) : Except ParseFail (F64 × Nat) := do
  if stop ≤ i then parseError lineNo .missingValue
  else
    let tokEnd ← skip bytes stop (!isSpace ·) i
    let tok := strFrom bytes i tokEnd
    match parseValue tok with
    | none => parseError lineNo (.invalidValue tok)
    | some value =>
        let next ← skip bytes stop isSpace tokEnd
        .ok (value, next)

/-- The optional timestamp at `i`, and the index past the blanks that follow it. -/
def parseLineTimestamp (bytes : List UInt8) (stop lineNo i : Nat) :
    Except ParseFail (Option Int64 × Nat) := do
  if i < stop then
    if (← byteAt bytes i) == byte '#' then .ok (none, i)
    else
      let tokEnd ← skip bytes stop (!isSpace ·) i
      let tok := strFrom bytes i tokEnd
      match parseTimestamp tok with
      | none => parseError lineNo (.invalidTimestamp tok)
      | some parsed =>
          let next ← skip bytes stop isSpace tokEnd
          .ok (some parsed, next)
  else .ok (none, i)

/-- Only an exemplar may follow. -/
def parseLineEnd (bytes : List UInt8) (stop lineNo i : Nat) : Except ParseFail Unit := do
  if i < stop then
    if (← byteAt bytes i) == byte '#' then .ok ()
    else parseError lineNo (.trailingContent (strFrom bytes i stop))
  else .ok ()

/-- The optional label set at `i`: the end of the identity, the labels, and the index of the value. -/
def parseLineLabels (bytes : List UInt8) (stop lineNo identityEnd i : Nat) (labels : List Label) :
    Except ParseFail (Nat × List Label × Nat) := do
  if ← lookingAt bytes stop i (byte '{') then
    let (close, labels) ← parseLabels bytes i stop lineNo labels
    let next ← skip bytes stop isSpace close
    .ok (close, labels, next)
  else .ok (identityEnd, labels, i)

/-- A sample line whose first non-blank byte is at `nameStart`. -/
def parseSample (bytes : List UInt8) (nameStart stop lineNo : Nat) (defaultTimestampMs : Int64)
    (honorTimestamps : Bool) : Except ParseFail TimeSeries := do
  let b ← byteAt bytes nameStart
  if !isNameStart b true then parseError lineNo (.invalidMetricStart b)
  else
    let nameEnd ← skip bytes stop (isNameContinue · true) (nameStart + 1)
    let metricName := strFrom bytes nameStart nameEnd
    let i ← skip bytes stop isSpace nameEnd
    let (identityEnd, labels, i) ←
      parseLineLabels bytes stop lineNo nameEnd i [⟨metricNameLabel, metricName⟩]
    let (value, i) ← parseLineValue bytes stop lineNo i
    let (parsed, i) ← parseLineTimestamp bytes stop lineNo i
    parseLineEnd bytes stop lineNo i
    let timestamp := if honorTimestamps then parsed.getD defaultTimestampMs else defaultTimestampMs
    let identity := Scan.slice bytes nameStart identityEnd
    .ok {
      labels := labels
      sample := { value := value, timestamp := timestamp }
      identityHash := (FxHasher.default.write identity).finish
      histogram := none }

/-- Parse the line at `start..stop`; `none` for blank and comment lines. -/
def parseLine (bytes : List UInt8) (start stop lineNo : Nat) (defaultTimestampMs : Int64)
    (honorTimestamps : Bool) : Except ParseFail (Option TimeSeries) := do
  let i ← skip bytes stop isSpace start
  if stop ≤ i then .ok none
  else if (← byteAt bytes i) == byte '#' then .ok none
  else (parseSample bytes i stop lineNo defaultTimestampMs honorTimestamps).map some

/-! ## Bodies -/

/-- `memchr`. -/
def memchr (x : UInt8) (hay : List UInt8) : Option Nat := hay.findIdx? (· == x)

/-- The end of the line at `pos`. -/
def lineEndFrom (bytes : List UInt8) (pos : Nat) : Nat :=
  match memchr (byte '\n') (bytes.drop pos) with
  | some offset => pos + offset
  | none => bytes.length

/-- Strip a trailing `\r` from the line `start..stop`. -/
def stripCr (bytes : List UInt8) (start stop : Nat) : Except ParseFail Nat :=
  if start < stop then
    (byteAt bytes (stop - 1)).map fun b => if b == byte '\r' then stop - 1 else stop
  else .ok stop

/-- The rounds of `parse`: `lineNo` lines are done, the next one starts at `pos`. -/
def parseFrom (bytes : List UInt8) (defaultTimestampMs : Int64) (honorTimestamps : Bool) :
    Nat → Nat → Nat → List TimeSeries → Except ParseFail (List TimeSeries)
  | 0, _, pos, out => if pos < bytes.length then .error .panic else .ok out
  | n + 1, lineNo, pos, out =>
      if pos < bytes.length then do
        let lineEnd := lineEndFrom bytes pos
        let next := if lineEnd < bytes.length then lineEnd + 1 else lineEnd
        let stop ← stripCr bytes pos lineEnd
        let series ←
          parseLine bytes pos stop (lineNo + 1) defaultTimestampMs honorTimestamps
        parseFrom bytes defaultTimestampMs honorTimestamps n (lineNo + 1) next (out ++ series.toList)
      else .ok out

/-- Parse a scrape body, one series per sample line. -/
def parse (body : String) (defaultTimestampMs : Int64) (honorTimestamps : Bool) :
    Except ParseFail (List TimeSeries) :=
  let bytes := utf8Bytes body
  parseFrom bytes defaultTimestampMs honorTimestamps bytes.length 0 0 []

end PromScrape
