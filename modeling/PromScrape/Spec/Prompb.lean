import PromScrape.Implementation.Model

set_option autoImplicit false

/-! # The prompb messages and a proto3 codec for them

What a receiver sees: the message types of remote-write 1.0 and 2.0 (the prost views
`WireHistogram`, `TimeSeriesV2`, `WriteRequestV2` of `src/model.rs`, and the `PbTimeSeries` /
`PbWriteRequest` shadows its tests decode into), each with the fields proto3 gives it — default
scalars and empty packed lists left out, oneofs always present — and with a decoder built on
`ProtoWire.decodeMessage`.

Nothing here mentions how the agent encodes: that its bytes are these encodings is
`Proofs/EncodeV1.lean` and `Proofs/EncodeV2.lean`. -/

namespace PromScrape

open Utf8 (utf8Bytes)
open ProtoWire

/-! ## Message types -/

/-- `prompb.Histogram`, wire-identical in remote-write 1.0 and 2.0. -/
structure WireHistogram where
  count : Option HistogramCount
  sum : F64
  schema : Int32
  zeroThreshold : F64
  zeroCount : Option HistogramCount
  negativeSpans : List BucketSpan
  negativeDeltas : List Int64
  negativeCounts : List F64
  positiveSpans : List BucketSpan
  positiveDeltas : List Int64
  positiveCounts : List F64
  /-- `ResetHint` discriminant. -/
  resetHint : Int32
  timestamp : Int64
deriving DecidableEq, Repr

/-- The wire view of `histogram` sampled at `timestamp`. -/
def WireHistogram.fromHistogram (histogram : Histogram) (timestamp : Int64) : WireHistogram :=
  { count := some histogram.count
    sum := histogram.sum
    schema := histogram.schema
    zeroThreshold := histogram.zeroThreshold
    zeroCount := some histogram.zeroCount
    negativeSpans := histogram.negativeSpans
    negativeDeltas := histogram.negativeDeltas
    negativeCounts := histogram.negativeCounts
    positiveSpans := histogram.positiveSpans
    positiveDeltas := histogram.positiveDeltas
    positiveCounts := histogram.positiveCounts
    resetHint := histogram.resetHint.toUInt8.toUInt32.toInt32
    timestamp := timestamp }

/-- `prompb.TimeSeries`. -/
structure PbTimeSeries where
  labels : List Label
  samples : List Sample
  histograms : List WireHistogram
deriving DecidableEq, Repr

/-- `prompb.WriteRequest`. -/
structure PbWriteRequest where
  timeseries : List PbTimeSeries
deriving DecidableEq, Repr

/-- `io.prometheus.write.v2.TimeSeries`: even `labelsRefs` are names, odd ones values. -/
structure TimeSeriesV2 where
  labelsRefs : List UInt32
  samples : List Sample
  histograms : List WireHistogram
deriving DecidableEq, Repr

/-- `io.prometheus.write.v2.Request`; `symbols[0]` must be the empty string. -/
structure WriteRequestV2 where
  symbols : List String
  timeseries : List TimeSeriesV2
deriving DecidableEq, Repr

/-! ## Fields -/

def Label.fields (l : Label) : List Field :=
  scalarField 1 l.name.isEmpty (.len (utf8Bytes l.name)) ++
    scalarField 2 l.value.isEmpty (.len (utf8Bytes l.value))

def doubleField (number : Nat) (x : F64) : List Field :=
  scalarField number x.isZero (.fixed64 x.bits)

def int64Field (number : Nat) (x : Int64) : List Field :=
  scalarField number (x = 0) (.varint x.toUInt64)

def sint32Field (number : Nat) (x : Int32) : List Field :=
  scalarField number (x = 0) (.varint (UInt64.ofNat (zigzagNat x.toInt)))

def Sample.fields (s : Sample) : List Field := doubleField 1 s.value ++ int64Field 2 s.timestamp

def BucketSpan.fields (s : BucketSpan) : List Field :=
  sint32Field 1 s.offset ++ scalarField 2 (s.length = 0) (.varint s.length.toUInt64)

/-- A count oneof: integer variant under `intNumber`, float variant under `floatNumber`. -/
def countField (intNumber floatNumber : Nat) : Option HistogramCount → List Field
  | some (.int count) => [⟨intNumber, .varint count⟩]
  | some (.float count) => [⟨floatNumber, .fixed64 count.bits⟩]
  | none => []

def spanField (number : Nat) (s : BucketSpan) : Field := ⟨number, .len (encodeFields s.fields)⟩

/-- A packed `repeated sint64`. -/
def deltasField (number : Nat) (deltas : List Int64) : List Field :=
  scalarField number deltas.isEmpty
    (.len ((deltas.map (fun d => UInt64.ofNat (zigzagNat d.toInt))).flatMap varint))

/-- A packed `repeated double`. -/
def countsField (number : Nat) (counts : List F64) : List Field :=
  scalarField number counts.isEmpty
    (.len ((counts.map F64.bits).flatMap (fun v => leBytes 8 v.toNat)))

def WireHistogram.fields (h : WireHistogram) : List Field :=
  countField 1 2 h.count ++
    doubleField 3 h.sum ++
    sint32Field 4 h.schema ++
    doubleField 5 h.zeroThreshold ++
    countField 6 7 h.zeroCount ++
    h.negativeSpans.map (spanField 8) ++
    deltasField 9 h.negativeDeltas ++
    countsField 10 h.negativeCounts ++
    h.positiveSpans.map (spanField 11) ++
    deltasField 12 h.positiveDeltas ++
    countsField 13 h.positiveCounts ++
    scalarField 14 (h.resetHint = 0) (.varint h.resetHint.toInt64.toUInt64) ++
    int64Field 15 h.timestamp

def labelField (l : Label) : Field := ⟨1, .len (encodeFields l.fields)⟩

def sampleField (number : Nat) (s : Sample) : Field := ⟨number, .len (encodeFields s.fields)⟩

def histogramField (number : Nat) (h : WireHistogram) : Field :=
  ⟨number, .len (encodeFields h.fields)⟩

def PbTimeSeries.fields (s : PbTimeSeries) : List Field :=
  s.labels.map labelField ++ s.samples.map (sampleField 2) ++ s.histograms.map (histogramField 4)

def PbWriteRequest.fields (r : PbWriteRequest) : List Field :=
  r.timeseries.map (fun s => ⟨1, .len (encodeFields s.fields)⟩)

/-- A packed `repeated uint32`. -/
def refsField (number : Nat) (refs : List UInt32) : List Field :=
  scalarField number refs.isEmpty (.len ((refs.map UInt32.toUInt64).flatMap varint))

def TimeSeriesV2.fields (s : TimeSeriesV2) : List Field :=
  refsField 1 s.labelsRefs ++ s.samples.map (sampleField 2) ++ s.histograms.map (histogramField 3)

def symbolField (symbol : String) : Field := ⟨4, .len (utf8Bytes symbol)⟩

def WriteRequestV2.fields (r : WriteRequestV2) : List Field :=
  r.symbols.map symbolField ++
    r.timeseries.map (fun s => ⟨5, .len (encodeFields s.fields)⟩)

/-- The protobuf encoding of a 2.0 request. -/
def WriteRequestV2.encode (r : WriteRequestV2) : List UInt8 := encodeFields r.fields

/-! ## Decoders -/

def Label.step (l : Label) (f : Field) : Option Label :=
  match f.number with
  | 1 => (asString f.value).map (fun x => { l with name := x })
  | 2 => (asString f.value).map (fun x => { l with value := x })
  | _ => some l

def Label.decode : List UInt8 → Option Label := decodeMessage Label.step ⟨"", ""⟩

def Sample.step (s : Sample) (f : Field) : Option Sample :=
  match f.number with
  | 1 => (asDouble f.value).map (fun x => { s with value := x })
  | 2 => (asInt64 f.value).map (fun x => { s with timestamp := x })
  | _ => some s

def Sample.decode : List UInt8 → Option Sample := decodeMessage Sample.step ⟨.zero, 0⟩

def BucketSpan.step (s : BucketSpan) (f : Field) : Option BucketSpan :=
  match f.number with
  | 1 => (asSint32 f.value).map (fun x => { s with offset := x })
  | 2 => (asUint32 f.value).map (fun x => { s with length := x })
  | _ => some s

def BucketSpan.decode : List UInt8 → Option BucketSpan := decodeMessage BucketSpan.step ⟨0, 0⟩

def asDeltas (v : Value) : Option (List Int64) :=
  (asRepeatedVarint v).map (fun vs => vs.map (fun n => Int64.ofInt (unzigzag n.toNat)))

def asCounts (v : Value) : Option (List F64) := (asRepeatedFixed64 v).map (fun vs => vs.map F64.mk)

def asRefs (v : Value) : Option (List UInt32) :=
  (asRepeatedVarint v).map (fun vs => vs.map UInt64.toUInt32)

/-- The histogram a decoder starts from: every field at its proto3 default, no oneof set. -/
def WireHistogram.empty : WireHistogram :=
  ⟨none, .zero, 0, .zero, none, [], [], [], [], [], [], 0, 0⟩

def WireHistogram.step (h : WireHistogram) (f : Field) : Option WireHistogram :=
  match f.number with
  | 1 => (asUint64 f.value).map (fun x => { h with count := some (.int x) })
  | 2 => (asDouble f.value).map (fun x => { h with count := some (.float x) })
  | 3 => (asDouble f.value).map (fun x => { h with sum := x })
  | 4 => (asSint32 f.value).map (fun x => { h with schema := x })
  | 5 => (asDouble f.value).map (fun x => { h with zeroThreshold := x })
  | 6 => (asUint64 f.value).map (fun x => { h with zeroCount := some (.int x) })
  | 7 => (asDouble f.value).map (fun x => { h with zeroCount := some (.float x) })
  | 8 => (asMessage BucketSpan.decode f.value).map
      (fun x => { h with negativeSpans := h.negativeSpans ++ [x] })
  | 9 => (asDeltas f.value).map (fun xs => { h with negativeDeltas := h.negativeDeltas ++ xs })
  | 10 => (asCounts f.value).map (fun xs => { h with negativeCounts := h.negativeCounts ++ xs })
  | 11 => (asMessage BucketSpan.decode f.value).map
      (fun x => { h with positiveSpans := h.positiveSpans ++ [x] })
  | 12 => (asDeltas f.value).map (fun xs => { h with positiveDeltas := h.positiveDeltas ++ xs })
  | 13 => (asCounts f.value).map (fun xs => { h with positiveCounts := h.positiveCounts ++ xs })
  | 14 => (asInt32 f.value).map (fun x => { h with resetHint := x })
  | 15 => (asInt64 f.value).map (fun x => { h with timestamp := x })
  | _ => some h

def WireHistogram.decode : List UInt8 → Option WireHistogram :=
  decodeMessage WireHistogram.step .empty

def PbTimeSeries.step (s : PbTimeSeries) (f : Field) : Option PbTimeSeries :=
  match f.number with
  | 1 => (asMessage Label.decode f.value).map (fun x => { s with labels := s.labels ++ [x] })
  | 2 => (asMessage Sample.decode f.value).map (fun x => { s with samples := s.samples ++ [x] })
  | 4 => (asMessage WireHistogram.decode f.value).map
      (fun x => { s with histograms := s.histograms ++ [x] })
  | _ => some s

def PbTimeSeries.decode : List UInt8 → Option PbTimeSeries :=
  decodeMessage PbTimeSeries.step ⟨[], [], []⟩

def PbWriteRequest.step (r : PbWriteRequest) (f : Field) : Option PbWriteRequest :=
  match f.number with
  | 1 => (asMessage PbTimeSeries.decode f.value).map
      (fun x => { r with timeseries := r.timeseries ++ [x] })
  | _ => some r

/-- A proto3 decoder for `prompb.WriteRequest`: it consumes all bytes or fails. -/
def PbWriteRequest.decode : List UInt8 → Option PbWriteRequest := decodeMessage PbWriteRequest.step ⟨[]⟩

def TimeSeriesV2.step (s : TimeSeriesV2) (f : Field) : Option TimeSeriesV2 :=
  match f.number with
  | 1 => (asRefs f.value).map (fun xs => { s with labelsRefs := s.labelsRefs ++ xs })
  | 2 => (asMessage Sample.decode f.value).map (fun x => { s with samples := s.samples ++ [x] })
  | 3 => (asMessage WireHistogram.decode f.value).map
      (fun x => { s with histograms := s.histograms ++ [x] })
  | _ => some s

def TimeSeriesV2.decode : List UInt8 → Option TimeSeriesV2 :=
  decodeMessage TimeSeriesV2.step ⟨[], [], []⟩

def WriteRequestV2.step (r : WriteRequestV2) (f : Field) : Option WriteRequestV2 :=
  match f.number with
  | 4 => (asString f.value).map (fun x => { r with symbols := r.symbols ++ [x] })
  | 5 => (asMessage TimeSeriesV2.decode f.value).map
      (fun x => { r with timeseries := r.timeseries ++ [x] })
  | _ => some r

/-- A proto3 decoder for `io.prometheus.write.v2.Request`. -/
def WriteRequestV2.decode : List UInt8 → Option WriteRequestV2 :=
  decodeMessage WriteRequestV2.step ⟨[], []⟩

end PromScrape
