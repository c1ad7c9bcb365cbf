import PromScrape.Implementation.Model

set_option autoImplicit false

/-! # The remote-write 2.0 encoder (`src/remote_write.rs`)

`encode_v2_into`: one pass that interns every label string and collects the flat stream of symbol
references, then one that writes the symbols and the series. `none` stands for a panic (an index out
of bounds, an `unwrap` of nothing, a subtraction below zero); that it never happens is part of what
`Proofs/EncodeV2.lean` shows. -/

namespace PromScrape

open Utf8 (utf8Bytes)

/-- Reusable buffers for the v2 encoder, held across batches. -/
structure V2Scratch where
  /-- Flat stream of symbol refs for the whole batch, in series order. -/
  refs : List UInt32
  /-- Per-series encoded size of the packed `labels_refs` field. -/
  packedLens : List UInt32
deriving DecidableEq, Repr

/-- The symbols pushed so far and the map from a string to its reference. -/
structure Symbols where
  symbols : List String
  index : List (String × UInt32)
deriving DecidableEq, Repr

/-- The table a batch starts with: `symbols[0]` must be the empty string. -/
def Symbols.new : Symbols := ⟨[""], []⟩

/-- `u32::try_from(len).unwrap_or(0)`. -/
def refOfLen (len : Nat) : UInt32 := if len < 2 ^ 32 then UInt32.ofNat len else 0

def intern (s : Symbols) (text : String) : UInt32 × Symbols :=
  if text.isEmpty then (0, s)
  else
    match s.index.lookup text with
    | some reference => (reference, s)
    | none =>
        let reference := refOfLen s.symbols.length
        (reference, ⟨s.symbols ++ [text], (text, reference) :: s.index⟩)

/-- State of pass 1: the symbols, the refs pushed so far, and the current series' `packed`. -/
structure V2Pass where
  symbols : Symbols
  refs : List UInt32
  packed : Nat
deriving DecidableEq, Repr

/-- The reference reused for a string equal to the previous series' one at the same place, if it is
    equal; `none` when the index is out of bounds. -/
def reuseRef (refs : List UInt32) (index : Nat) (equal : Bool) : Option (Option UInt32) :=
  if equal then refs[index]?.map some else some none

/-- `reference.unwrap_or_else(|| intern(..))`. -/
def refOrIntern (s : Symbols) (reference : Option UInt32) (text : String) : UInt32 × Symbols :=
  match reference with
  | some reference => (reference, s)
  | none => intern s text

/-- The previous series' references for a label at `position`, where its strings are equal. -/
def previousRefs (prev : Option TimeSeries) (prevMatches : Bool) (refs : List UInt32)
    (base len position : Nat) (label : Label) : Option (Option UInt32 × Option UInt32) :=
  if prevMatches then do
    let prev ← prev
    let previous ← prev.labels[position]?
    let _ ← if 2 * len ≤ base then some () else none
    let prevBase := base - 2 * len + 2 * position
    let nameRef ← reuseRef refs prevBase (previous.name == label.name)
    let valueRef ← reuseRef refs (prevBase + 1) (previous.value == label.value)
    return (nameRef, valueRef)
  else some (none, none)

/-- The body of the loop over a series' labels. -/
def passLabel (prev : Option TimeSeries) (prevMatches : Bool) (base len position : Nat)
    (pass : V2Pass) (label : Label) : Option V2Pass := do
  let reused ← previousRefs prev prevMatches pass.refs base len position label
  let name := refOrIntern pass.symbols reused.1 label.name
  let value := refOrIntern name.2 reused.2 label.value
  return { symbols := value.2
           refs := pass.refs ++ [name.1, value.1]
           packed := pass.packed + (varintLen name.1.toUInt64 + varintLen value.1.toUInt64) }

def passLabels (prev : Option TimeSeries) (prevMatches : Bool) (base len : Nat) :
    Nat → List Label → V2Pass → Option V2Pass
  | _, [], pass => some pass
  | position, label :: rest, pass => do
      let pass ← passLabel prev prevMatches base len position pass label
      passLabels prev prevMatches base len (position + 1) rest pass

/-- The refs and packed lengths of the scratch and the symbols, after the series seen so far. -/
structure V2Interned where
  symbols : Symbols
  scratch : V2Scratch
deriving DecidableEq, Repr

/-- One series of pass 1; `packed as u32` keeps the low 32 bits. -/
def passSeries (prev : Option TimeSeries) (st : V2Interned) (series : TimeSeries) :
    Option V2Interned := do
  let base := st.scratch.refs.length
  let prevMatches := prev.any (fun p => p.labels.length == series.labels.length)
  let pass ← passLabels prev prevMatches base series.labels.length 0 series.labels
    ⟨st.symbols, st.scratch.refs, 0⟩
  return ⟨pass.symbols, ⟨pass.refs, st.scratch.packedLens ++ [UInt32.ofNat pass.packed]⟩⟩

/-- Pass 1: intern all strings and collect the flat ref stream. -/
def passBatch : Option TimeSeries → List TimeSeries → V2Interned → Option V2Interned
  | _, [], st => some st
  | prev, series :: rest, st => do
      let st ← passSeries prev st series
      passBatch (some series) rest st

/-- Field 4 for one symbol. -/
def putSymbol (symbol : String) : List UInt8 :=
  0x22 :: putVarint (UInt64.ofNat (utf8Bytes symbol).length) ++ utf8Bytes symbol

/-- Field 5 for one series with its slice of refs and its packed length. -/
def putSeriesV2 (series : TimeSeries) (refs : List UInt32) (packed : Nat) : List UInt8 :=
  let valueLen := series.valueWireLen
  let seriesLen := (if refs.isEmpty then 0 else 1 + varintLen (UInt64.ofNat packed) + packed) +
    (1 + varintLen (UInt64.ofNat valueLen) + valueLen)
  0x2a :: putVarint (UInt64.ofNat seriesLen) ++
    (if refs.isEmpty then []
      else 0x0a :: putVarint (UInt64.ofNat packed) ++
        refs.flatMap (fun reference => putVarint reference.toUInt64)) ++
    series.putValue 0x12 0x1a

/-- Pass 2 over the series zipped with their packed lengths, from `offset` in the ref stream. -/
def putBatchV2 (refs : List UInt32) : Nat → List (TimeSeries × UInt32) → Option (List UInt8)
  | _, [] => some []
  | offset, (series, packed) :: rest => do
      let count := series.labels.length * 2
      let slice ← if offset + count ≤ refs.length then some ((refs.drop offset).take count) else none
      let tail ← putBatchV2 refs (offset + slice.length) rest
      return putSeriesV2 series slice packed.toNat ++ tail

/-- Encode `batch` as `io.prometheus.write.v2.Request`, appending to `buf`. -/
def encodeV2Into (batch : List TimeSeries) (buf : List UInt8) (scratch : V2Scratch) :
    Option (List UInt8 × V2Scratch) := do
  let cleared := { scratch with refs := [], packedLens := [] }
  let st ← passBatch none batch ⟨.new, cleared⟩
  let series ← putBatchV2 st.scratch.refs 0 (batch.zip st.scratch.packedLens)
  return (buf ++ st.symbols.symbols.flatMap putSymbol ++ series, st.scratch)

end PromScrape
