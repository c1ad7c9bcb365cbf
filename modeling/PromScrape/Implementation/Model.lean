import Mathlib
import PromScrape.Library.Float64
import PromScrape.Library.ProtoWire

set_option autoImplicit false

/-! # Series, histograms and the remote-write 1.0 encoder (`src/model.rs`)

The internal series type — one sample or one native histogram per series — and the hand-rolled
encoder of `prompb.WriteRequest`. Every `put…` returns the bytes it pushes onto the buffer;
`encodeInto` threads the buffer itself. As in the source, every length prefix comes from a separate
`…Len` function that is evaluated before the bytes it announces are written.

`usize` is `Nat` here: no vector holds more than `isize::MAX` elements, and the proofs that need
the bound state it. A cast of a length to `u64` is `UInt64.ofNat`. -/

namespace PromScrape

open Utf8 (utf8Bytes)
open ProtoWire (leBytes)

/-- Reserved label name carrying the metric name. -/
def metricNameLabel : String := "__name__"

/-- Prometheus staleness marker: a NaN with this exact bit pattern. -/
def staleNanBits : UInt64 := 0x7ff0000000000002

def staleNan : F64 := ⟨staleNanBits⟩

structure Label where
  name : String
  value : String
deriving DecidableEq, Repr

structure Sample where
  value : F64
  /-- Milliseconds since the Unix epoch. -/
  timestamp : Int64
deriving DecidableEq, Repr

/-- A native histogram count; a `oneof` on the wire, written even when zero. -/
inductive HistogramCount where
  | int (count : UInt64)
  | float (count : F64)
deriving DecidableEq, Repr

/-- `length` consecutive populated buckets, `offset` buckets after the previous span's end. -/
structure BucketSpan where
  offset : Int32
  length : UInt32
deriving DecidableEq, Repr

/-- Counter-reset hint (`prompb.Histogram.ResetHint`). -/
inductive ResetHint where
  | unknown
  | yes
  | no
  | gauge
deriving DecidableEq, Repr

/-- The discriminant (`self.reset_hint as u8`). -/
def ResetHint.toUInt8 : ResetHint → UInt8
  | .unknown => 0
  | .yes => 1
  | .no => 2
  | .gauge => 3

/-- A native histogram; integer histograms use the `…Deltas` lists, float ones the `…Counts`. -/
structure Histogram where
  count : HistogramCount
  sum : F64
  schema : Int32
  zeroThreshold : F64
  zeroCount : HistogramCount
  negativeSpans : List BucketSpan
  negativeDeltas : List Int64
  negativeCounts : List F64
  positiveSpans : List BucketSpan
  positiveDeltas : List Int64
  positiveCounts : List F64
  resetHint : ResetHint
deriving DecidableEq, Repr

/-- One series carrying one sample, or one histogram instead of `sample.value`. -/
structure TimeSeries where
  labels : List Label
  sample : Sample
  /-- Staleness identity; zero for synthetic series, never on the wire. -/
  identityHash : UInt64
  histogram : Option Histogram
deriving DecidableEq, Repr

structure WriteRequest where
  timeseries : List TimeSeries
deriving DecidableEq, Repr

/-- Sort labels by name. The source's sort is unstable, which shows only among equal names. -/
def sortLabels (labels : List Label) : List Label :=
  labels.insertionSort (fun a b => a.name ≤ b.name)

/-! ## Varints and strings -/

/-- Wire tag for a length-delimited field 1 (`labels`, `name`, `timeseries`). -/
def tag1Len : UInt8 := 0x0a
/-- Wire tag for a length-delimited field 2 (`samples`, `value`). -/
def tag2Len : UInt8 := 0x12
/-- Wire tag for the `double` field 1 of `Sample`. -/
def tag1Double : UInt8 := 0x09
/-- Wire tag for the `int64` field 2 of `Sample`. -/
def tag2Varint : UInt8 := 0x10
/-- Wire tag of `prompb.TimeSeries.histograms` (field 4, length-delimited). -/
def tag4Len : UInt8 := 0x22

/-- `u64::leading_zeros`. -/
def leadingZeros (value : UInt64) : Nat := if value = 0 then 64 else 63 - value.toNat.log2

/-- Encoded size of `value` as a protobuf varint (the branch-free form). -/
def varintLen (value : UInt64) : Nat := ((leadingZeros (value ||| 1) ^^^ 63) * 9 + 73) / 64

/-- The `while value >= 0x80` loop of `putVarint`, with the number of rounds it may still take: a
    `u64` is below `0x80` after nine shifts, see `putVarint_step`. -/
def putVarintLoop : Nat → UInt64 → List UInt8
  | 0, value => [value.toUInt8]
  | rounds + 1, value =>
      if value ≥ 0x80 then
        ((value &&& 0x7f).toUInt8 ||| 0x80) :: putVarintLoop rounds (value >>> 7)
      else [value.toUInt8]

def putVarint (value : UInt64) : List UInt8 := putVarintLoop 9 value

/-- Encoded size of a string field, 0 when empty. -/
def stringFieldLen (value : String) : Nat :=
  if value.isEmpty then 0
  else 1 + varintLen (UInt64.ofNat (utf8Bytes value).length) + (utf8Bytes value).length

def putStringField (tag : UInt8) (value : String) : List UInt8 :=
  if value.isEmpty then []
  else tag :: putVarint (UInt64.ofNat (utf8Bytes value).length) ++ utf8Bytes value

/-- Reinterpret an `int64` as the `u64` protobuf varints are built from. -/
def int64Bits (value : Int64) : UInt64 := value.toUInt64

def Label.wireLen (l : Label) : Nat := stringFieldLen l.name + stringFieldLen l.value

/-! ## Samples -/

def Sample.wireLen (s : Sample) : Nat :=
  (if s.value.isZero then 0 else 9) +
    (if s.timestamp = 0 then 0 else 1 + varintLen (int64Bits s.timestamp))

/-- The sample's fields without the message header. -/
def Sample.putFields (s : Sample) : List UInt8 :=
  (if s.value.isZero then [] else tag1Double :: leBytes 8 s.value.bits.toNat) ++
    (if s.timestamp = 0 then [] else tag2Varint :: putVarint (int64Bits s.timestamp))

/-! ## Histograms -/

/-- Zigzag encoding of `sint32`/`sint64` fields. -/
def zigzag (value : Int64) : UInt64 := int64Bits ((value <<< 1) ^^^ (value >>> 63))

/-- Encoded size of a packed repeated field whose payload takes `payload` bytes, 0 when empty. -/
def packedFieldLen (payload : Nat) : Nat :=
  if payload = 0 then 0 else 1 + varintLen (UInt64.ofNat payload) + payload

def HistogramCount.wireLen : HistogramCount → Nat
  | .int count => 1 + varintLen count
  | .float _ => 9

/-- `intTag`/`floatTag` are the full key bytes of the two variants. -/
def HistogramCount.put (intTag floatTag : UInt8) : HistogramCount → List UInt8
  | .int count => intTag :: putVarint count
  | .float count => floatTag :: leBytes 8 count.bits.toNat

def BucketSpan.wireLen (s : BucketSpan) : Nat :=
  (if s.offset = 0 then 0 else 1 + varintLen (zigzag s.offset.toInt64)) +
    (if s.length = 0 then 0 else 1 + varintLen s.length.toUInt64)

def BucketSpan.putFields (s : BucketSpan) : List UInt8 :=
  (if s.offset = 0 then [] else 0x08 :: putVarint (zigzag s.offset.toInt64)) ++
    (if s.length = 0 then [] else 0x10 :: putVarint s.length.toUInt64)

def spansLen (spans : List BucketSpan) : Nat :=
  (spans.map (fun span => 1 + varintLen (UInt64.ofNat span.wireLen) + span.wireLen)).sum

def putSpans (tag : UInt8) (spans : List BucketSpan) : List UInt8 :=
  spans.flatMap (fun span => tag :: putVarint (UInt64.ofNat span.wireLen) ++ span.putFields)

def deltasPayloadLen (deltas : List Int64) : Nat :=
  (deltas.map (fun delta => varintLen (zigzag delta))).sum

def putDeltas (tag : UInt8) (deltas : List Int64) : List UInt8 :=
  if deltas.isEmpty then []
  else tag :: putVarint (UInt64.ofNat (deltasPayloadLen deltas)) ++
    deltas.flatMap (fun delta => putVarint (zigzag delta))

def putCounts (tag : UInt8) (counts : List F64) : List UInt8 :=
  if counts.isEmpty then []
  else tag :: putVarint (UInt64.ofNat counts.length * 8) ++
    counts.flatMap (fun count => leBytes 8 count.bits.toNat)

/-- Encoded size of the `prompb.Histogram` message body carrying `timestamp` (field 15). -/
def Histogram.wireLen (h : Histogram) (timestamp : Int64) : Nat :=
  h.count.wireLen + h.zeroCount.wireLen +
    (if h.sum.isZero then 0 else 9) +
    (if h.schema = 0 then 0 else 1 + varintLen (zigzag h.schema.toInt64)) +
    (if h.zeroThreshold.isZero then 0 else 9) +
    (spansLen h.negativeSpans + spansLen h.positiveSpans) +
    (packedFieldLen (deltasPayloadLen h.negativeDeltas) +
      packedFieldLen (deltasPayloadLen h.positiveDeltas)) +
    (packedFieldLen (h.negativeCounts.length * 8) +
      packedFieldLen (h.positiveCounts.length * 8)) +
    (if h.resetHint = .unknown then 0 else 2) +
    (if timestamp = 0 then 0 else 1 + varintLen (int64Bits timestamp))

/-- The message body without its header, fields in tag order. -/
def Histogram.putFields (h : Histogram) (timestamp : Int64) : List UInt8 :=
  h.count.put 0x08 0x11 ++
    (if h.sum.isZero then [] else 0x19 :: leBytes 8 h.sum.bits.toNat) ++
    (if h.schema = 0 then [] else 0x20 :: putVarint (zigzag h.schema.toInt64)) ++
    (if h.zeroThreshold.isZero then [] else 0x29 :: leBytes 8 h.zeroThreshold.bits.toNat) ++
    h.zeroCount.put 0x30 0x39 ++
    putSpans 0x42 h.negativeSpans ++
    putDeltas 0x4a h.negativeDeltas ++
    putCounts 0x52 h.negativeCounts ++
    putSpans 0x5a h.positiveSpans ++
    putDeltas 0x62 h.positiveDeltas ++
    putCounts 0x6a h.positiveCounts ++
    (if h.resetHint = .unknown then [] else [0x70, h.resetHint.toUInt8]) ++
    (if timestamp = 0 then [] else 0x78 :: putVarint (int64Bits timestamp))

/-! ## Series and requests -/

/-- Encoded size of the series' one value message: its sample, or its histogram if it has one. -/
def TimeSeries.valueWireLen (s : TimeSeries) : Nat :=
  match s.histogram with
  | some histogram => histogram.wireLen s.sample.timestamp
  | none => s.sample.wireLen

def TimeSeries.wireLen (s : TimeSeries) : Nat :=
  (s.labels.map (fun label => 1 + varintLen (UInt64.ofNat label.wireLen) + label.wireLen)).sum +
    1 + varintLen (UInt64.ofNat s.valueWireLen) + s.valueWireLen

/-- The series' one value as a repeated field of one: tag `sampleTag` for a float sample,
    `histogramTag` for a histogram. -/
def TimeSeries.putValue (sampleTag histogramTag : UInt8) (s : TimeSeries) : List UInt8 :=
  match s.histogram with
  | some histogram =>
      histogramTag :: putVarint (UInt64.ofNat (histogram.wireLen s.sample.timestamp)) ++
        histogram.putFields s.sample.timestamp
  | none => sampleTag :: putVarint (UInt64.ofNat s.sample.wireLen) ++ s.sample.putFields

/-- The bytes `encodeInto` pushes for one label. -/
def putLabel (label : Label) : List UInt8 :=
  tag1Len :: putVarint (UInt64.ofNat label.wireLen) ++
    putStringField tag1Len label.name ++ putStringField tag2Len label.value

/-- The bytes `encodeInto` pushes for one series. -/
def putSeries (series : TimeSeries) : List UInt8 :=
  tag1Len :: putVarint (UInt64.ofNat series.wireLen) ++
    series.labels.flatMap putLabel ++ series.putValue tag2Len tag4Len

/-- Encode into `buf` (appending) in a single pass. -/
def WriteRequest.encodeInto (r : WriteRequest) (buf : List UInt8) : List UInt8 :=
  r.timeseries.foldl (fun buf series => buf ++ putSeries series) buf

end PromScrape
