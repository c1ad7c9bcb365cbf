import PromScrape.Implementation.Parser

set_option autoImplicit false

/-! # The text parser over its reads of the body

The parser once more, with every index and every slice of the body an operation that may abort. Over
`Access.plain` it is the parser itself; over `Access.checked` an index or a slice out of bounds, or a
slice off a character boundary, aborts. Everything that does not read the body is taken from the
parser. -/

namespace PromScrape

open Numerals (f64FromStr i64FromStr)

/-- How the body is read. -/
structure Access where
  /-- `bytes[i]`. -/
  byteAt : Nat → Except ParseFail UInt8
  /-- `&bytes[i..j]`. -/
  slice : Nat → Nat → Except ParseFail (List UInt8)
  /-- `&bytes[i..j]`, where the closing quote is looked for. -/
  window : Nat → Nat → Except ParseFail (List UInt8)
  /-- `body.get(i..j)`. -/
  text : Nat → Nat → Except ParseFail (Option String)

namespace Access

/-- The reads that the parser makes. -/
def plain (bytes : List UInt8) : Access where
  byteAt := PromScrape.byteAt bytes
  slice := fun i j => .ok (Scan.slice bytes i j)
  window := fun i j => .ok (Scan.slice bytes i j)
  text := fun i j => .ok (Scan.get bytes i j)

/-- Bytes `i..j` are in bounds, and start and end on character boundaries. -/
def IsSlice (bytes : List UInt8) (i j : Nat) : Prop :=
  i ≤ j ∧ j ≤ bytes.length ∧ Scan.isCharBoundary bytes i = true ∧
    Scan.isCharBoundary bytes j = true

instance (bytes : List UInt8) (i j : Nat) : Decidable (IsSlice bytes i j) :=
  inferInstanceAs (Decidable (_ ∧ _ ∧ _ ∧ _))

/-- The same reads, none of which may miss. Windows need only be in bounds, unless `aligned`. -/
def checked (aligned : Bool) (bytes : List UInt8) : Access where
  byteAt := PromScrape.byteAt bytes
  slice := fun i j =>
    if IsSlice bytes i j then .ok (Scan.slice bytes i j) else .error .panic
  window := fun i j =>
    if i ≤ j ∧ j ≤ bytes.length ∧ (aligned = true → IsSlice bytes i j) then
      .ok (Scan.slice bytes i j)
    else .error .panic
  text := fun i j => (orPanic (Scan.get bytes i j)).map some

variable (A : Access)

/-! ## Cursors -/

/-- `n` rounds of `while p(bytes[i]) { i += 1 }`. -/
def skipFrom (p : UInt8 → Bool) : Nat → Nat → Except ParseFail Nat
  | 0, i => .ok i
  | n + 1, i => do if p (← A.byteAt i) then skipFrom p n (i + 1) else .ok i

def skip (stop : Nat) (p : UInt8 → Bool) (i : Nat) : Except ParseFail Nat :=
  A.skipFrom p (stop - i) i

def lookingAt (stop i : Nat) (c : UInt8) : Except ParseFail Bool :=
  if i < stop then (A.byteAt i).map (· == c) else .ok false

def strFrom (start stop : Nat) : Except ParseFail String :=
  (A.text start stop).map fun s => s.getD ""

def utf8From (start stop lineNo : Nat) : Except ParseFail String := do
  match ← A.text start stop with
  | some s => .ok s
  | none => parseError lineNo .invalidBoundary

/-! ## Label sets -/

def scanQuote (stop lineNo : Nat) : Nat → Nat → Bool → Except ParseFail (Nat × Bool)
  | 0, _, _ => .error .panic
  | n + 1, i, hasEscape => do
      match memchr2 (byte '"') (byte '\\') (← A.window i stop) with
      | none => parseError lineNo .unterminatedLabelValue
      | some offset =>
          let b ← A.byteAt (i + offset)
          if b == byte '"' then .ok (i + offset, hasEscape)
          else if stop ≤ i + offset + 1 then parseError lineNo .trailingBackslash
          else scanQuote stop lineNo n (i + offset + 2) true

def unescape (contentStart : Nat) (raw : List UInt8) (lineNo : Nat) :
    Nat → Nat → String → Except ParseFail String
  | 0, j, decoded => if raw.length ≤ j then .ok decoded else .error .panic
  | n + 1, j, decoded =>
      if raw.length ≤ j then .ok decoded
      else do
        let b ← PromScrape.byteAt raw j
        if b == byte '\\' then
          let e ← PromScrape.byteAt raw (j + 1)
          let c ← escapeChar lineNo e
          unescape contentStart raw lineNo n (j + 2) (decoded ++ c)
        else
          let runEnd ← PromScrape.skip raw raw.length (· != byte '\\') j
          let run ← A.utf8From (contentStart + j) (contentStart + runEnd) lineNo
          unescape contentStart raw lineNo n runEnd (decoded ++ run)

def parseLabelValue (start stop lineNo : Nat) : Except ParseFail (String × Nat) := do
  let contentStart := start + 1
  let (close, hasEscape) ← A.scanQuote stop lineNo (stop + 1 - contentStart) contentStart false
  if !hasEscape then
    let s ← A.utf8From contentStart close lineNo
    .ok (s, close + 1)
  else
    let raw ← A.slice contentStart close
    let decoded ← A.unescape contentStart raw lineNo raw.length 0 ""
    .ok (decoded, close + 1)

def parseLabelName (stop lineNo : Nat) (labels : List Label) (seen : Option (List String))
    (i : Nat) : Except ParseFail (String × Nat) := do
  let b ← A.byteAt i
  if !isNameStart b false then parseError lineNo (.invalidLabelStart b)
  else
    let next ← A.skip stop (isNameContinue · false) (i + 1)
    let name ← A.strFrom i next
    if name = metricNameLabel then parseError lineNo .metricNameInBraces
    else
      checkLabelName name lineNo labels seen
      .ok (name, next)

def expectByte (stop lineNo : Nat) (c : UInt8) (kind : ParseErrorKind) (i : Nat) :
    Except ParseFail Nat := do
  let i ← A.skip stop isSpace i
  if ← A.lookingAt stop i c then .ok (i + 1) else parseError lineNo kind

def parseLabelsLoop (stop lineNo : Nat) :
    Nat → Nat → List Label → Option (List String) → Except ParseFail (Nat × List Label)
  | 0, _, _, _ => .error .panic
  | n + 1, i, labels, seen => do
      let i ← A.skip stop isSpace i
      if stop ≤ i then parseError lineNo .unterminatedLabelSet
      else if (← A.byteAt i) == byte '}' then .ok (i + 1, labels)
      else
        let (name, i) ← A.parseLabelName stop lineNo labels seen i
        let i ← A.expectByte stop lineNo (byte '=') (.expectedEquals name) i
        let i ← A.expectByte stop lineNo (byte '"') (.expectedQuote name) i
        let (value, i) ← A.parseLabelValue (i - 1) stop lineNo
        let labels := labels ++ [⟨name, value⟩]
        let seen := recordLabelName name labels seen
        let i ← A.skip stop isSpace i
        if stop ≤ i then parseError lineNo .unterminatedLabelSet
        else
          let b ← A.byteAt i
          if b == byte ',' then parseLabelsLoop stop lineNo n (i + 1) labels seen
          else if b == byte '}' then .ok (i + 1, labels)
          else parseError lineNo (.expectedCommaOrBrace b)

def parseLabels (start stop lineNo : Nat) (labels : List Label) :
    Except ParseFail (Nat × List Label) :=
  A.parseLabelsLoop stop lineNo (stop - start) (start + 1) labels none

/-! ## Lines -/

def parseLineValue (stop lineNo i : Nat) : Except ParseFail (F64 × Nat) := do
  if stop ≤ i then parseError lineNo .missingValue
  else
    let tokEnd ← A.skip stop (!isSpace ·) i
    let tok ← A.strFrom i tokEnd
    match parseValue tok with
    | none => parseError lineNo (.invalidValue tok)
    | some value =>
        let next ← A.skip stop isSpace tokEnd
        .ok (value, next)

def parseLineTimestamp (stop lineNo i : Nat) : Except ParseFail (Option Int64 × Nat) := do
  if i < stop then
    if (← A.byteAt i) == byte '#' then .ok (none, i)
    else
      let tokEnd ← A.skip stop (!isSpace ·) i
      let tok ← A.strFrom i tokEnd
      match parseTimestamp tok with
      | none => parseError lineNo (.invalidTimestamp tok)
      | some parsed =>
          let next ← A.skip stop isSpace tokEnd
          .ok (some parsed, next)
  else .ok (none, i)

def parseLineEnd (stop lineNo i : Nat) : Except ParseFail Unit := do
  if i < stop then
    if (← A.byteAt i) == byte '#' then .ok ()
    else
      let text ← A.strFrom i stop
      parseError lineNo (.trailingContent text)
  else .ok ()

def parseLineLabels (stop lineNo identityEnd i : Nat) (labels : List Label) :
    Except ParseFail (Nat × List Label × Nat) := do
  if ← A.lookingAt stop i (byte '{') then
    let (close, labels) ← A.parseLabels i stop lineNo labels
    let next ← A.skip stop isSpace close
    .ok (close, labels, next)
  else .ok (identityEnd, labels, i)

def parseSample (nameStart stop lineNo : Nat) (defaultTimestampMs : Int64)
    (honorTimestamps : Bool) : Except ParseFail TimeSeries := do
  let b ← A.byteAt nameStart
  if !isNameStart b true then parseError lineNo (.invalidMetricStart b)
  else
    let nameEnd ← A.skip stop (isNameContinue · true) (nameStart + 1)
    let metricName ← A.strFrom nameStart nameEnd
    let i ← A.skip stop isSpace nameEnd
    let (identityEnd, labels, i) ←
      A.parseLineLabels stop lineNo nameEnd i [⟨metricNameLabel, metricName⟩]
    let (value, i) ← A.parseLineValue stop lineNo i
    let (parsed, i) ← A.parseLineTimestamp stop lineNo i
    A.parseLineEnd stop lineNo i
    let timestamp := if honorTimestamps then parsed.getD defaultTimestampMs else defaultTimestampMs
    let identity ← A.slice nameStart identityEnd
    .ok {
      labels := labels
      sample := { value := value, timestamp := timestamp }
      identityHash := (FxHasher.default.write identity).finish
      histogram := none }

def parseLine (start stop lineNo : Nat) (defaultTimestampMs : Int64) (honorTimestamps : Bool) :
    Except ParseFail (Option TimeSeries) := do
  let i ← A.skip stop isSpace start
  if stop ≤ i then .ok none
  else if (← A.byteAt i) == byte '#' then .ok none
  else (A.parseSample i stop lineNo defaultTimestampMs honorTimestamps).map some

/-! ## Bodies -/

/-- The end of the line at `pos` in a body of `len` bytes. -/
def lineEndFrom (len pos : Nat) : Except ParseFail Nat := do
  match memchr (byte '\n') (← A.slice pos len) with
  | some offset => .ok (pos + offset)
  | none => .ok len

def stripCr (start stop : Nat) : Except ParseFail Nat :=
  if start < stop then
    (A.byteAt (stop - 1)).map fun b => if b == byte '\r' then stop - 1 else stop
  else .ok stop

def parseFrom (len : Nat) (defaultTimestampMs : Int64) (honorTimestamps : Bool) :
    Nat → Nat → Nat → List TimeSeries → Except ParseFail (List TimeSeries)
  | 0, _, pos, out => if pos < len then .error .panic else .ok out
  | n + 1, lineNo, pos, out =>
      if pos < len then do
        let lineEnd ← A.lineEndFrom len pos
        let next := if lineEnd < len then lineEnd + 1 else lineEnd
        let stop ← A.stripCr pos lineEnd
        let series ← A.parseLine pos stop (lineNo + 1) defaultTimestampMs honorTimestamps
        parseFrom len defaultTimestampMs honorTimestamps n (lineNo + 1) next (out ++ series.toList)
      else .ok out

/-- The parser over a body of `len` bytes. -/
def parse (len : Nat) (defaultTimestampMs : Int64) (honorTimestamps : Bool) :
    Except ParseFail (List TimeSeries) :=
  A.parseFrom len defaultTimestampMs honorTimestamps len 0 0 []

end Access

end PromScrape
