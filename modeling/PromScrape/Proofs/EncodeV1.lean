import PromScrape.Proofs.Varint
import PromScrape.Proofs.PrompbCodec

set_option autoImplicit false

/-! # The remote-write 1.0 encoder writes `prompb.WriteRequest`

Two facts for each level of the encoder of `src/model.rs`, from strings up to series: the bytes
`put…` pushes are the proto3 encoding of the message's fields, and `…Len` is exactly their number.
The second is what makes the first true one level up, where that number becomes a length prefix.

The end of the file puts the encoder against the decoder (`decode_encodeInto`). -/

namespace PromScrape

open Utf8 (utf8Bytes)
open ProtoWire

/-! ## One-byte keys

Every field number below 16 has a key of one byte, the constant the source writes. -/

theorem varint_key {key : Nat} (hkey : key < 128) :
    varint (UInt64.ofNat key) = [UInt8.ofNat key] := by
  have hnat : (UInt64.ofNat key).toNat = key := by
    rw [UInt64.toNat_ofNat']
    exact Nat.mod_eq_of_lt (by omega)
  rw [varint, hnat, varintDigits, if_pos hkey]

/-- A field numbered below 16 starts with one key byte. -/
theorem encodeField_eq_cons {f : Field} (hn : f.number < 16) :
    encodeField f = UInt8.ofNat (8 * f.number + f.value.wireType) :: encodeValue f.value := by
  have htype : f.value.wireType < 8 := by cases f.value <;> simp [Value.wireType]
  rw [encodeField, Field.key, varint_key (by omega)]
  rfl

theorem encodeField_varint {n : Nat} (hn : n < 16) (v : UInt64) :
    encodeField ⟨n, .varint v⟩ = UInt8.ofNat (8 * n) :: putVarint v := by
  rw [encodeField_eq_cons hn, putVarint_eq_varint]
  rfl

theorem encodeField_fixed64 {n : Nat} (hn : n < 16) (v : UInt64) :
    encodeField ⟨n, .fixed64 v⟩ = UInt8.ofNat (8 * n + 1) :: leBytes 8 v.toNat :=
  encodeField_eq_cons hn

theorem encodeField_len {n : Nat} (hn : n < 16) (payload : List UInt8) :
    encodeField ⟨n, .len payload⟩
      = UInt8.ofNat (8 * n + 2) :: (putVarint (UInt64.ofNat payload.length) ++ payload) := by
  rw [encodeField_eq_cons hn, putVarint_eq_varint]
  rfl

/-- A scalar field's bytes: none at the default. -/
theorem encodeFields_scalarField (n : Nat) (isDefault : Bool) (v : Value) :
    encodeFields (scalarField n isDefault v) = if isDefault then [] else encodeField ⟨n, v⟩ := by
  cases isDefault <;> simp [scalarField]

/-! ## Scalar fields -/

theorem putStringField_eq {n : Nat} (hn : n < 16) (s : String) :
    putStringField (UInt8.ofNat (8 * n + 2)) s
      = encodeFields (scalarField n s.isEmpty (.len (utf8Bytes s))) := by
  rw [encodeFields_scalarField, encodeField_len hn]
  rfl

theorem stringFieldLen_eq (tag : UInt8) (s : String) :
    stringFieldLen s = (putStringField tag s).length := by
  unfold stringFieldLen putStringField
  split
  · rfl
  · simp only [List.cons_append, List.length_cons, List.length_append, putVarint_length]
    omega

theorem encodeFields_doubleField {n : Nat} (hn : n < 16) (x : F64) :
    encodeFields (doubleField n x)
      = if x.isZero then [] else UInt8.ofNat (8 * n + 1) :: leBytes 8 x.bits.toNat := by
  rw [doubleField, encodeFields_scalarField, encodeField_fixed64 hn]

theorem encodeFields_int64Field {n : Nat} (hn : n < 16) (x : Int64) :
    encodeFields (int64Field n x)
      = if x = 0 then [] else UInt8.ofNat (8 * n) :: putVarint (int64Bits x) := by
  rw [int64Field, encodeFields_scalarField, encodeField_varint hn]
  simp [int64Bits]

theorem zigzag_toInt64 (x : Int32) : zigzag x.toInt64 = UInt64.ofNat (zigzagNat x.toInt) := by
  rw [zigzag_eq, Int32.toInt_toInt64]

theorem encodeFields_sint32Field {n : Nat} (hn : n < 16) (x : Int32) :
    encodeFields (sint32Field n x)
      = if x = 0 then [] else UInt8.ofNat (8 * n) :: putVarint (zigzag x.toInt64) := by
  rw [sint32Field, encodeFields_scalarField, encodeField_varint hn, zigzag_toInt64]
  simp

/-- An optional byte string announced by a length of 0 or its own. -/
theorem length_ite_nil {c : Prop} [Decidable c] (bytes : List UInt8) (n : Nat)
    (h : bytes.length = n) : (if c then ([] : List UInt8) else bytes).length = if c then 0 else n := by
  split
  · rfl
  · exact h

theorem length_tag_varint (tag : UInt8) (v : UInt64) :
    (tag :: putVarint v).length = 1 + varintLen v := by
  rw [List.length_cons, putVarint_length]
  omega

theorem length_tag_double (tag : UInt8) (x : F64) :
    (tag :: leBytes 8 x.bits.toNat).length = 9 := by
  simp

/-! ## Labels and samples -/

theorem Label.putFields_eq (l : Label) :
    putStringField tag1Len l.name ++ putStringField tag2Len l.value = encodeFields l.fields := by
  rw [Label.fields, encodeFields_append, ← putStringField_eq (by decide), ← putStringField_eq
    (by decide)]
  rfl

theorem Label.wireLen_eq (l : Label) : l.wireLen = (encodeFields l.fields).length := by
  rw [← l.putFields_eq, List.length_append, ← stringFieldLen_eq, ← stringFieldLen_eq]
  rfl

theorem Sample.putFields_eq (s : Sample) : s.putFields = encodeFields s.fields := by
  rw [Sample.fields, encodeFields_append, encodeFields_doubleField (by decide),
    encodeFields_int64Field (by decide)]
  rfl

theorem Sample.wireLen_eq (s : Sample) : s.wireLen = (encodeFields s.fields).length := by
  rw [← s.putFields_eq, Sample.putFields, List.length_append,
    length_ite_nil _ _ (length_tag_double ..), length_ite_nil _ _ (length_tag_varint ..)]
  rfl

/-! ## Histogram parts -/

theorem HistogramCount.put_eq {i f : Nat} (hi : i < 16) (hf : f < 16) (c : HistogramCount) :
    c.put (UInt8.ofNat (8 * i)) (UInt8.ofNat (8 * f + 1))
      = encodeFields (countField i f (some c)) := by
  cases c with
  | int n => simp [HistogramCount.put, countField, encodeField_varint hi]
  | float x => simp [HistogramCount.put, countField, encodeField_fixed64 hf]

theorem HistogramCount.wireLen_eq (intTag floatTag : UInt8) (c : HistogramCount) :
    c.wireLen = (c.put intTag floatTag).length := by
  cases c with
  | int n => rw [HistogramCount.put, length_tag_varint]; rfl
  | float x => rw [HistogramCount.put, length_tag_double]; rfl

theorem BucketSpan.putFields_eq (s : BucketSpan) : s.putFields = encodeFields s.fields := by
  rw [BucketSpan.fields, encodeFields_append, encodeFields_sint32Field (by decide),
    encodeFields_scalarField, encodeField_varint (by decide)]
  simp [BucketSpan.putFields]

theorem BucketSpan.wireLen_eq (s : BucketSpan) : s.wireLen = (encodeFields s.fields).length := by
  rw [← s.putFields_eq, BucketSpan.putFields, List.length_append,
    length_ite_nil _ _ (length_tag_varint ..), length_ite_nil _ _ (length_tag_varint ..)]
  rfl

theorem putSpans_eq {n : Nat} (hn : n < 16) (spans : List BucketSpan) :
    putSpans (UInt8.ofNat (8 * n + 2)) spans = encodeFields (spans.map (spanField n)) := by
  rw [encodeFields_map, putSpans]
  refine List.flatMap_congr (fun span _ => ?_)
  rw [spanField, encodeField_len hn, span.putFields_eq, span.wireLen_eq]
  rfl

theorem spansLen_eq (tag : UInt8) (spans : List BucketSpan) :
    spansLen spans = (putSpans tag spans).length := by
  rw [putSpans, List.length_flatMap, spansLen]
  congr 1
  refine List.map_congr_left (fun span _ => ?_)
  rw [List.length_append, length_tag_varint, span.putFields_eq, span.wireLen_eq]

/-- The packed payload of delta counts. -/
theorem deltas_payload_eq (deltas : List Int64) :
    deltas.flatMap (fun delta => putVarint (zigzag delta))
      = (deltas.map (fun d => UInt64.ofNat (zigzagNat d.toInt))).flatMap varint := by
  simp only [List.flatMap_map, putVarint_eq_varint, zigzag_eq]

theorem deltasPayloadLen_eq (deltas : List Int64) :
    deltasPayloadLen deltas = (deltas.flatMap (fun delta => putVarint (zigzag delta))).length := by
  simp only [deltasPayloadLen, List.length_flatMap, putVarint_length]

theorem putDeltas_eq {n : Nat} (hn : n < 16) (deltas : List Int64) :
    putDeltas (UInt8.ofNat (8 * n + 2)) deltas = encodeFields (deltasField n deltas) := by
  rw [deltasField, encodeFields_scalarField, encodeField_len hn, ← deltas_payload_eq,
    ← deltasPayloadLen_eq]
  rfl

/-- A packed field's own length function agrees with the field written, provided the payload is
    empty only where the field is left out. -/
theorem packedFieldLen_eq {c : Bool} (tag : UInt8) (payload : List UInt8)
    (hempty : c = true ↔ payload = []) :
    packedFieldLen payload.length
      = (if c then [] else tag :: (putVarint (UInt64.ofNat payload.length) ++ payload)).length := by
  unfold packedFieldLen
  split
  · next h => rw [if_pos (hempty.2 (List.length_eq_zero_iff.1 h))]; rfl
  · next h =>
      rw [if_neg (fun hc => h (List.length_eq_zero_iff.2 (hempty.1 hc))), List.length_cons,
        List.length_append, putVarint_length]
      omega

theorem packedFieldLen_deltas (tag : UInt8) (deltas : List Int64) :
    packedFieldLen (deltasPayloadLen deltas) = (putDeltas tag deltas).length := by
  rw [deltasPayloadLen_eq, putDeltas, deltasPayloadLen_eq]
  refine packedFieldLen_eq tag _ ?_
  have hne : ∀ delta, putVarint (zigzag delta) ≠ [] := fun delta => by
    rw [putVarint_eq_varint]
    exact varintDigits_ne_nil 9 _
  cases deltas with
  | nil => simp
  | cons d rest => simp [hne]

theorem counts_payload_length (counts : List F64) :
    (counts.flatMap (fun count => leBytes 8 count.bits.toNat)).length = counts.length * 8 := by
  simp [List.length_flatMap]

theorem putCounts_eq_packed (tag : UInt8) (counts : List F64) :
    putCounts tag counts = if counts.isEmpty then [] else
      tag :: (putVarint (UInt64.ofNat
        (counts.flatMap (fun count => leBytes 8 count.bits.toNat)).length) ++
          counts.flatMap (fun count => leBytes 8 count.bits.toNat)) := by
  have hmul : UInt64.ofNat (counts.length * 8) = UInt64.ofNat counts.length * 8 :=
    UInt64.ofNat_mul ..
  rw [counts_payload_length, hmul]
  rfl

theorem putCounts_eq {n : Nat} (hn : n < 16) (counts : List F64) :
    putCounts (UInt8.ofNat (8 * n + 2)) counts = encodeFields (countsField n counts) := by
  rw [countsField, encodeFields_scalarField, encodeField_len hn, List.flatMap_map,
    putCounts_eq_packed]

theorem packedFieldLen_counts (tag : UInt8) (counts : List F64) :
    packedFieldLen (counts.length * 8) = (putCounts tag counts).length := by
  rw [putCounts_eq_packed, ← counts_payload_length]
  refine packedFieldLen_eq tag _ ?_
  cases counts with
  | nil => simp
  | cons c rest => simp [leBytes]

/-! ## Histograms -/

theorem resetHint_field (hint : ResetHint) :
    encodeFields (scalarField 14 (hint.toUInt8.toUInt32.toInt32 = 0)
      (.varint hint.toUInt8.toUInt32.toInt32.toInt64.toUInt64))
      = if hint = .unknown then [] else [0x70, hint.toUInt8] := by
  cases hint <;> decide

theorem Histogram.putFields_eq (h : Histogram) (timestamp : Int64) :
    h.putFields timestamp = encodeFields (WireHistogram.fromHistogram h timestamp).fields := by
  have hcount : encodeFields (countField 1 2 (WireHistogram.fromHistogram h timestamp).count)
      = h.count.put 0x08 0x11 := (h.count.put_eq (by decide) (by decide)).symm
  have hzero : encodeFields (countField 6 7 (WireHistogram.fromHistogram h timestamp).zeroCount)
      = h.zeroCount.put 0x30 0x39 := (h.zeroCount.put_eq (by decide) (by decide)).symm
  have hreset : encodeFields (scalarField 14
      ((WireHistogram.fromHistogram h timestamp).resetHint = 0)
      (.varint (WireHistogram.fromHistogram h timestamp).resetHint.toInt64.toUInt64))
      = if h.resetHint = .unknown then [] else [0x70, h.resetHint.toUInt8] :=
    resetHint_field h.resetHint
  rw [WireHistogram.fields]
  simp only [encodeFields_append]
  rw [hcount, hzero, hreset, encodeFields_doubleField (by decide),
    encodeFields_sint32Field (by decide), encodeFields_doubleField (by decide),
    ← putSpans_eq (by decide), ← putDeltas_eq (by decide), ← putCounts_eq (by decide),
    ← putSpans_eq (by decide), ← putDeltas_eq (by decide), ← putCounts_eq (by decide),
    encodeFields_int64Field (by decide)]
  rfl

theorem Histogram.wireLen_eq (h : Histogram) (timestamp : Int64) :
    h.wireLen timestamp
      = (encodeFields (WireHistogram.fromHistogram h timestamp).fields).length := by
  rw [← h.putFields_eq, Histogram.putFields]
  simp only [List.length_append, length_ite_nil _ _ (length_tag_double ..),
    length_ite_nil _ _ (length_tag_varint ..), ← HistogramCount.wireLen_eq, ← spansLen_eq,
    ← packedFieldLen_deltas, ← packedFieldLen_counts, Histogram.wireLen]
  have hreset : (if h.resetHint = .unknown then [] else [0x70, h.resetHint.toUInt8]).length
      = if h.resetHint = .unknown then 0 else 2 := length_ite_nil _ _ rfl
  rw [hreset]
  omega

/-! ## Series and requests -/

/-- What a 1.0 receiver is meant to see of a series. -/
def TimeSeries.toPb (s : TimeSeries) : PbTimeSeries :=
  match s.histogram with
  | some histogram => ⟨s.labels, [], [.fromHistogram histogram s.sample.timestamp]⟩
  | none => ⟨s.labels, [s.sample], []⟩

def WriteRequest.toPb (r : WriteRequest) : PbWriteRequest := ⟨r.timeseries.map TimeSeries.toPb⟩

/-- The field that carries the series' one value. -/
def TimeSeries.valueField (histogramNumber : Nat) (s : TimeSeries) : Field :=
  match s.histogram with
  | some histogram => histogramField histogramNumber (.fromHistogram histogram s.sample.timestamp)
  | none => sampleField 2 s.sample

theorem TimeSeries.putValue_eq {n : Nat} (hn : n < 16) (s : TimeSeries) :
    s.putValue tag2Len (UInt8.ofNat (8 * n + 2)) = encodeField (s.valueField n) := by
  unfold putValue valueField
  cases s.histogram with
  | some histogram =>
      dsimp only
      rw [histogramField, encodeField_len hn, histogram.putFields_eq, histogram.wireLen_eq]
      rfl
  | none =>
      dsimp only
      rw [sampleField, encodeField_len (by decide), s.sample.putFields_eq, s.sample.wireLen_eq]
      rfl

theorem TimeSeries.valueWireLen_eq {n : Nat} (hn : n < 16) (s : TimeSeries) :
    1 + varintLen (UInt64.ofNat s.valueWireLen) + s.valueWireLen
      = (encodeField (s.valueField n)).length := by
  have hlen : ∀ payload : List UInt8, ∀ m < 16, (encodeField ⟨m, .len payload⟩).length
      = 1 + varintLen (UInt64.ofNat payload.length) + payload.length := by
    intro payload m hm
    rw [encodeField_len hm, List.length_cons, List.length_append, putVarint_length]
    omega
  unfold valueWireLen valueField
  cases s.histogram with
  | some histogram =>
      dsimp only
      rw [histogramField, hlen _ n hn, histogram.wireLen_eq]
  | none =>
      dsimp only
      rw [sampleField, hlen _ 2 (by decide), s.sample.wireLen_eq]

theorem putLabel_eq (l : Label) : putLabel l = encodeField (labelField l) := by
  rw [putLabel, List.append_assoc, l.putFields_eq, l.wireLen_eq, labelField,
    encodeField_len (by decide)]
  rfl

theorem TimeSeries.toPb_fields (s : TimeSeries) :
    s.toPb.fields = s.labels.map labelField ++ [s.valueField 4] := by
  unfold TimeSeries.toPb TimeSeries.valueField PbTimeSeries.fields
  cases s.histogram <;> simp

/-- The bytes of a series after its header. -/
theorem TimeSeries.body_eq (s : TimeSeries) :
    s.labels.flatMap putLabel ++ s.putValue tag2Len tag4Len = encodeFields s.toPb.fields := by
  have hvalue : s.putValue tag2Len tag4Len = encodeField (s.valueField 4) :=
    s.putValue_eq (show 4 < 16 by decide)
  rw [funext putLabel_eq]
  rw [s.toPb_fields, encodeFields_append, encodeFields_map, hvalue, encodeFields_cons,
    encodeFields_nil, List.append_nil]

theorem TimeSeries.wireLen_eq (s : TimeSeries) :
    s.wireLen = (encodeFields s.toPb.fields).length := by
  rw [s.toPb_fields, encodeFields_append, encodeFields_map, List.length_append, encodeFields_cons,
    encodeFields_nil, List.append_nil, ← s.valueWireLen_eq (by decide), List.length_flatMap,
    TimeSeries.wireLen]
  have hlabel : ∀ l : Label, (encodeField (labelField l)).length
      = 1 + varintLen (UInt64.ofNat l.wireLen) + l.wireLen := by
    intro l
    rw [labelField, encodeField_len (by decide), List.length_cons, List.length_append,
      putVarint_length, l.wireLen_eq]
    omega
  simp only [hlabel]
  omega

theorem putSeries_eq (s : TimeSeries) :
    putSeries s = encodeField ⟨1, .len (encodeFields s.toPb.fields)⟩ := by
  rw [putSeries, List.append_assoc, s.body_eq, s.wireLen_eq, encodeField_len (by decide)]
  rfl

/-- **`encodeInto` appends the proto3 encoding of the request**, every length prefix included. -/
theorem WriteRequest.encodeInto_eq (r : WriteRequest) (buf : List UInt8) :
    r.encodeInto buf = buf ++ encodeFields r.toPb.fields := by
  have hfold : ∀ (series : List TimeSeries) (buf : List UInt8),
      series.foldl (fun buf s => buf ++ putSeries s) buf = buf ++ series.flatMap putSeries := by
    intro series
    induction series with
    | nil => simp
    | cons s rest ih => intro buf; rw [List.foldl_cons, ih, List.flatMap_cons, List.append_assoc]
  rw [encodeInto, hfold, toPb, PbWriteRequest.fields, List.map_map, encodeFields_map,
    funext putSeries_eq]
  rfl

/-! ## Round trip -/

/-- **A proto3 decoder reads back what `encodeInto` appended**: it consumes every byte and finds
    the same series in the same order, zero signs of default-skipped doubles aside. The bound is
    the one every byte vector obeys. -/
theorem WriteRequest.decode_encodeInto (r : WriteRequest) (buf : List UInt8)
    (hfit : (r.encodeInto buf).length < 2 ^ 64) :
    ∃ bytes, r.encodeInto buf = buf ++ bytes ∧
      PbWriteRequest.decode bytes = some r.toPb.unsignZero := by
  refine ⟨_, r.encodeInto_eq buf, PbWriteRequest.decode_fields _ ?_⟩
  rw [encodeInto_eq, List.length_append] at hfit
  omega

/-- The series of a small request: a float sample at -0.0 with a label of empty value, and an
    integer histogram with a negative span offset. -/
def sampleRequest : WriteRequest :=
  ⟨[⟨[⟨"__name__", "up"⟩, ⟨"job", ""⟩], ⟨.negZero, -1⟩, 0, none⟩,
    ⟨[⟨"__name__", "h"⟩], ⟨.zero, 1000⟩, 7, some
      { count := .int 3, sum := ⟨0x4014000000000000⟩, schema := -4, zeroThreshold := .negZero
        zeroCount := .int 0, negativeSpans := [⟨-2, 2⟩], negativeDeltas := [1, -1]
        negativeCounts := [], positiveSpans := [⟨0, 1⟩], positiveDeltas := [300]
        positiveCounts := [], resetHint := .yes }⟩]⟩

theorem WriteRequest.decode_encodeInto_sampleRequest :
    (sampleRequest.encodeInto [1, 2]).length < 2 ^ 64 ∧
      ∃ bytes, sampleRequest.encodeInto [1, 2] = [1, 2] ++ bytes ∧
        PbWriteRequest.decode bytes = some sampleRequest.toPb.unsignZero :=
  ⟨by decide +kernel, sampleRequest.decode_encodeInto [1, 2] (by decide +kernel)⟩

end PromScrape
