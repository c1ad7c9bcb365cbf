import PromScrape.Library.FloatText
import PromScrape.Implementation.Parser

set_option autoImplicit false

/-! # The protobuf exposition format (`src/protobuf.rs`)

A stream of length-delimited `MetricFamily` messages, converted to series. The generated decoder is
not the repository's and comes in as `ProstDecoder`. Integer arithmetic is that of a release build:
`i64` sums wrap and shift amounts are taken modulo the width. Bucket indices are `Int`; they stay
far inside `i64`. -/

namespace PromScrape

open Utf8 (utf8Bytes)

/-! ## Messages (`dto`)

Only the fields that the conversion reads; proto2 scalars are optional. -/

namespace Dto

inductive MetricType where
  | counter
  | gauge
  | summary
  | untyped
  | histogram
  | gaugeHistogram
deriving DecidableEq, Repr

/-- `MetricType::try_from`. -/
def MetricType.ofInt32? (raw : Int32) : Option MetricType :=
  if raw = 0 then some .counter
  else if raw = 1 then some .gauge
  else if raw = 2 then some .summary
  else if raw = 3 then some .untyped
  else if raw = 4 then some .histogram
  else if raw = 5 then some .gaugeHistogram
  else none

structure LabelPair where
  name : Option String
  value : Option String
deriving DecidableEq, Repr

structure Quantile where
  quantile : Option F64
  value : Option F64
deriving DecidableEq, Repr

structure Summary where
  sampleCount : Option UInt64
  sampleSum : Option F64
  quantile : List Quantile
deriving DecidableEq, Repr

structure Bucket where
  cumulativeCount : Option UInt64
  cumulativeCountFloat : Option F64
  upperBound : Option F64
deriving DecidableEq, Repr

structure BucketSpan where
  offset : Option Int32
  length : Option UInt32
deriving DecidableEq, Repr

structure Histogram where
  sampleCount : Option UInt64
  sampleCountFloat : Option F64
  sampleSum : Option F64
  /-- Classic buckets, cumulative and ordered by upper bound. -/
  bucket : List Bucket
  schema : Option Int32
  zeroThreshold : Option F64
  zeroCount : Option UInt64
  zeroCountFloat : Option F64
  negativeSpan : List BucketSpan
  negativeDelta : List Int64
  negativeCount : List F64
  positiveSpan : List BucketSpan
  positiveDelta : List Int64
  positiveCount : List F64
deriving DecidableEq, Repr

/-- One exposed metric; the scalar messages `Gauge`, `Counter` and `Untyped` are their value. -/
structure Metric where
  label : List LabelPair
  gauge : Option (Option F64)
  counter : Option (Option F64)
  summary : Option Summary
  untyped : Option (Option F64)
  histogram : Option Histogram
  timestampMs : Option Int64
deriving DecidableEq, Repr

structure MetricFamily where
  name : Option String
  type : Option Int32
  metric : List Metric
deriving DecidableEq, Repr

/-- `Summary::default()`. -/
def Summary.default : Summary := ⟨none, none, []⟩

/-- `Histogram::default()`. -/
def Histogram.default : Histogram :=
  ⟨none, none, none, [], none, none, none, none, [], [], [], [], [], []⟩

end Dto

/-- What the parser calls outside the repository: `decode_length_delimited`, which consumes at least
the length, and the `{:?}` form of strings. -/
structure ProstDecoder where
  decode : List UInt8 → Except String (Dto.MetricFamily × List UInt8)
  consumes : ∀ {bytes : List UInt8} {family : Dto.MetricFamily} {rest : List UInt8},
    decode bytes = .ok (family, rest) → rest.length < bytes.length
  debugStr : String → String

/-- Per-job conversion settings. -/
structure ProtobufOptions where
  honorTimestamps : Bool
  nativeHistograms : Bool
  classicHistograms : Bool
  /-- Maximum buckets per native histogram; `0` disables the limit. -/
  bucketLimit : UInt32
deriving DecidableEq, Repr

/-! ## Floats -/

/-- `unwrap_or_default`. -/
def orZero (x : Option F64) : F64 := x.getD F64.zero

/-- `x > 0.0`. -/
def isPositive (x : F64) : Bool := 0 < x.bits && x.bits ≤ F64.infinity.bits

/-- `count as f64`. -/
def toF64 (count : UInt64) : F64 := ⟨(Float.Model.ofUInt64 count).toBits⟩

def addF64 (x y : F64) : F64 := ⟨((Float.Model.ofBits x.bits).add (Float.Model.ofBits y.bits)).toBits⟩

/-- `str::split_once('e')`, the whole string and `0` if there is none. -/
def splitExponent (s : String) : List Char × String :=
  match s.toList.dropWhile (· != 'e') with
  | [] => (s.toList, "0")
  | _ :: rest => (s.toList.takeWhile (· != 'e'), String.ofList rest)

/-- `formatOpenMetricsFloat`: shortest `%g`, plus `.0` on integers. -/
def formatFloat (value : F64) : String :=
  let magnitude := value.bits &&& 0x7fffffffffffffff
  if F64.infinity.bits < magnitude then "NaN"
  else if magnitude = F64.infinity.bits then
    if isPositive value then "+Inf" else "-Inf"
  else
    let (mantissa, exponentText) := splitExponent (FloatText.lowerExp value)
    let exponent : Int := ((Numerals.i64FromStr exponentText).map Int64.toInt).getD 0
    let text :=
      if -4 ≤ exponent ∧ exponent < 6 then (FloatText.display value).toList
      else
        let digits := Nat.toDigits 10 exponent.natAbs
        let padded := if digits.length < 2 then '0' :: digits else digits
        mantissa ++ 'e' :: (if exponent < 0 then '-' else '+') :: padded
    String.ofList
      (if text.any (fun c => c == '.' || c == 'e' || c == 'E') then text else text ++ ['.', '0'])

/-! ## Native histograms -/

/-- Finest exponential schema. -/
def schemaMax : Int32 := 8

/-- Coarsest exponential schema. -/
def schemaMin : Int32 := -4

/-- Anything with spans, a zero bucket or zero observations in it. -/
def isNative (histogram : Dto.Histogram) : Bool :=
  !histogram.positiveSpan.isEmpty || !histogram.negativeSpan.isEmpty ||
    isPositive (orZero histogram.zeroThreshold) || 0 < histogram.zeroCount.getD 0 ||
    isPositive (orZero histogram.zeroCountFloat)

inductive Side where
  | negative
  | positive
deriving DecidableEq, Repr

/-- The side's name in error messages. -/
def Side.text : Side → String
  | .negative => "negative"
  | .positive => "positive"

/-- Populated buckets on one side, whichever representation is in use. -/
def bucketLen (histogram : Histogram) : Side → Nat
  | .negative => histogram.negativeDeltas.length + histogram.negativeCounts.length
  | .positive => histogram.positiveDeltas.length + histogram.positiveCounts.length

def fitsInt32 (value : Int) : Bool := -2 ^ 31 ≤ value && value < 2 ^ 31

/-- The span checks from span `i` on: `covered` buckets so far, `next` the index after them. -/
def validateSpans (side : Side) :
    Nat → List BucketSpan → Nat → Int → Except String Nat
  | _, [], covered, _ => .ok covered
  | i, span :: rest, covered, next =>
      if 0 < i ∧ span.offset < 0 then
        .error (side.text ++ " span " ++ toString i ++ " has negative offset " ++
          toString span.offset.toInt)
      else
        let first := next + span.offset.toInt
        let last := first + (max span.length.toNat 1 : Nat) - 1
        if !fitsInt32 first || !fitsInt32 last then
          .error (side.text ++ " bucket index " ++ toString last ++ " out of range")
        else
          validateSpans side (i + 1) rest (covered + span.length.toNat) (first + span.length.toNat)

/-- The counts that integer deltas describe. -/
def validateDeltas (side : Side) : Int64 → List Int64 → Except String Unit
  | _, [] => .ok ()
  | count, delta :: rest =>
      let sum := count.toInt + delta.toInt
      if sum < -2 ^ 63 ∨ 2 ^ 63 ≤ sum then .error (side.text ++ " bucket count overflows")
      else if sum < 0 then
        .error (side.text ++ " bucket count " ++ toString sum ++ " is negative")
      else validateDeltas side (count + delta) rest

/-- The structural checks on one side. -/
def validateSide (side : Side) (spans : List BucketSpan) (buckets : Nat) (deltas : List Int64) :
    Except String Unit := do
  let covered ← validateSpans side 0 spans 0 0
  if covered ≠ buckets then
    .error (side.text ++ " spans cover " ++ toString covered ++ " buckets but " ++
      toString buckets ++ " are exposed")
  else validateDeltas side 0 deltas

/-- `value >> shift` on `i64`. -/
def shiftRight (value : Int) (shift : Int32) : Int := value / 2 ^ (shift.toInt % 64).toNat

/-- Where `merge_buckets` is: the output so far and what is left of the input counts. -/
structure MergeState (α : Type) where
  outSpans : List BucketSpan
  outCounts : List α
  counts : List α
  index : Int
  last : Option Int

/-- `i32::try_from`. -/
def toI32 (value : Int) : Except String Int32 :=
  if fitsInt32 value then .ok (Int32.ofInt value)
  else .error ("bucket index " ++ toString value ++ " out of range")

/-- Change the last element, if there is one. -/
def modifyLast {α : Type} (f : α → α) (xs : List α) : List α :=
  match xs.getLast? with
  | none => xs
  | some x => xs.dropLast ++ [f x]

/-- One input bucket. -/
def mergeBucket {α : Type} (add : α → α → α) (shift : Int32) (st : MergeState α) :
    Except String (MergeState α) :=
  match st.counts with
  | [] => .error "spans cover more buckets than exposed"
  | count :: rest =>
      let target := shiftRight (st.index - 1) shift + 1
      let done (outSpans : List BucketSpan) (outCounts : List α) : MergeState α :=
        { outSpans := outSpans, outCounts := outCounts, counts := rest, index := st.index + 1,
          last := some target }
      match st.last with
      | some previous =>
          if previous = target then
            .ok (done st.outSpans (modifyLast (add · count) st.outCounts))
          else if previous + 1 = target then
            .ok (done (modifyLast (fun span => { span with length := span.length + 1 }) st.outSpans)
              (st.outCounts ++ [count]))
          else
            (toI32 (target - previous - 1)).map fun offset =>
              done (st.outSpans ++ [⟨offset, 1⟩]) (st.outCounts ++ [count])
      | none =>
          (toI32 target).map fun offset =>
            done (st.outSpans ++ [⟨offset, 1⟩]) (st.outCounts ++ [count])

/-- The buckets of one span. -/
def mergeRun {α : Type} (add : α → α → α) (shift : Int32) :
    Nat → MergeState α → Except String (MergeState α)
  | 0, st => .ok st
  | n + 1, st => do mergeRun add shift n (← mergeBucket add shift st)

def mergeSpans {α : Type} (add : α → α → α) (shift : Int32) :
    List BucketSpan → MergeState α → Except String (MergeState α)
  | [], st => .ok st
  | span :: rest, st => do
      let st := { st with index := st.index + span.offset.toInt }
      mergeSpans add shift rest (← mergeRun add shift span.length.toNat st)

/-- Re-bucket absolute counts `shift` schemas coarser. -/
def mergeBuckets {α : Type} (add : α → α → α) (spans : List BucketSpan) (counts : List α)
    (shift : Int32) : Except String (List BucketSpan × List α) :=
  (mergeSpans add shift spans
    { outSpans := [], outCounts := [], counts := counts, index := 0, last := none }).map
      fun st => (st.outSpans, st.outCounts)

/-- Running sums. -/
def absoluteCounts : Int64 → List Int64 → List Int64
  | _, [] => []
  | count, delta :: rest => (count + delta) :: absoluteCounts (count + delta) rest

/-- Differences. -/
def deltasOf : Int64 → List Int64 → List Int64
  | _, [] => []
  | previous, count :: rest => (count - previous) :: deltasOf count rest

/-- One side of `reduce_resolution`. -/
def reduceSide (shift : Int32) (spans : List BucketSpan) (deltas : List Int64)
    (counts : List F64) : Except String (List BucketSpan × List Int64 × List F64) :=
  if counts.isEmpty then
    (mergeBuckets (· + ·) spans (absoluteCounts 0 deltas) shift).map fun merged =>
      (merged.1, deltasOf 0 merged.2, counts)
  else
    (mergeBuckets addF64 spans counts shift).map fun merged => (merged.1, deltas, merged.2)

/-- Merge buckets down to the coarser schema `target`. -/
def reduceResolution (histogram : Histogram) (target : Int32) : Except String Histogram := do
  let shift := histogram.schema - target
  let (negativeSpans, negativeDeltas, negativeCounts) ← reduceSide shift histogram.negativeSpans
    histogram.negativeDeltas histogram.negativeCounts
  let (positiveSpans, positiveDeltas, positiveCounts) ← reduceSide shift histogram.positiveSpans
    histogram.positiveDeltas histogram.positiveCounts
  .ok { histogram with
    negativeSpans := negativeSpans, negativeDeltas := negativeDeltas,
    negativeCounts := negativeCounts, positiveSpans := positiveSpans,
    positiveDeltas := positiveDeltas, positiveCounts := positiveCounts, schema := target }

/-- The bucket-limit loop. The schema drops by one in each round, so `n` rounds lead from `schemaMin
+ n` down to `schemaMin`, where the loop gives up. -/
def limitBuckets (limit : Nat) : Nat → Histogram → Except String Histogram
  | n, histogram =>
      if bucketLen histogram .negative + bucketLen histogram .positive ≤ limit then .ok histogram
      else
        match n with
        | 0 =>
            .error ("native histogram has more than native_histogram_bucket_limit of " ++
              toString limit ++ " buckets even at the coarsest schema")
        | n + 1 => do limitBuckets limit n (← reduceResolution histogram (histogram.schema - 1))

def convertSpans (spans : List Dto.BucketSpan) : List BucketSpan :=
  spans.map fun span => ⟨span.offset.getD 0, span.length.getD 0⟩

/-- The histogram as exposed, before the checks. -/
def exposedHistogram (exposed : Dto.Histogram) (gauge : Bool) : Histogram :=
  let float := isPositive (orZero exposed.sampleCountFloat) ||
    isPositive (orZero exposed.zeroCountFloat)
  { count :=
      if float then .float (orZero exposed.sampleCountFloat)
      else .int (exposed.sampleCount.getD 0)
    sum := orZero exposed.sampleSum
    schema := exposed.schema.getD 0
    zeroThreshold := orZero exposed.zeroThreshold
    zeroCount :=
      if float then .float (orZero exposed.zeroCountFloat) else .int (exposed.zeroCount.getD 0)
    negativeSpans := convertSpans exposed.negativeSpan
    negativeDeltas := if float then [] else exposed.negativeDelta
    negativeCounts := if float then exposed.negativeCount else []
    positiveSpans := convertSpans exposed.positiveSpan
    positiveDeltas := if float then [] else exposed.positiveDelta
    positiveCounts := if float then exposed.positiveCount else []
    resetHint := if gauge then .gauge else .unknown }

def nativeHistogram (exposed : Dto.Histogram) (gauge : Bool) (bucketLimit : UInt32) :
    Except String Histogram := do
  let schema := exposed.schema.getD 0
  if schema < schemaMin then
    .error ("native histogram schema " ++ toString schema.toInt ++ " is below the minimum of " ++
      toString schemaMin.toInt)
  else
    let histogram := exposedHistogram exposed gauge
    validateSide .negative histogram.negativeSpans (bucketLen histogram .negative)
      histogram.negativeDeltas
    validateSide .positive histogram.positiveSpans (bucketLen histogram .positive)
      histogram.positiveDeltas
    let histogram ←
      if schemaMax < histogram.schema then reduceResolution histogram schemaMax
      else .ok histogram
    if 0 < bucketLimit then
      limitBuckets bucketLimit.toNat (histogram.schema.toInt - schemaMin.toInt).toNat histogram
    else .ok histogram

/-! ## Series -/

/-- `__name__` plus the exposed labels, in order, each name checked. -/
def exposedLabels (debugStr : String → String) :
    List Dto.LabelPair → Except String (List Label)
  | [] => .ok []
  | pair :: rest =>
      let labelName := pair.name.getD ""
      if !isValidName labelName false then .error ("invalid label name " ++ debugStr labelName)
      else (exposedLabels debugStr rest).map (⟨labelName, pair.value.getD ""⟩ :: ·)

/-- The scan of small sets: the first label with the name of one of those before it. -/
def duplicateByScan (before : List Label) : List Label → Option Label
  | [] => none
  | label :: rest =>
      if before.any (·.name == label.name) then some label
      else duplicateByScan (before ++ [label]) rest

/-- The index of large sets: the first label whose name is inserted twice. -/
def duplicateByIndex (seen : List String) : List Label → Option Label
  | [] => none
  | label :: rest =>
      if seen.contains label.name then some label
      else duplicateByIndex (seen.insert label.name) rest

def baseLabels (debugStr : String → String) (name : String) (pairs : List Dto.LabelPair) :
    Except String (List Label) :=
  if maxLabelsPerSeries < pairs.length + 1 then
    .error ("series has more than " ++ toString maxLabelsPerSeries ++ " labels")
  else do
    let labels := ⟨metricNameLabel, name⟩ :: (← exposedLabels debugStr pairs)
    let duplicate :=
      if labels.length ≤ 32 then duplicateByScan [] labels else duplicateByIndex [] labels
    match duplicate with
    | some label => .error ("duplicate label name " ++ debugStr label.name)
    | none => .ok labels

/-- Builds the series of one exposed metric. -/
structure SeriesBuilder where
  name : String
  labels : List Label
  timestamp : Int64

/-- The labels with `__name__` set to the family name plus `suffix`. -/
def SeriesBuilder.named (b : SeriesBuilder) (suffix : String) : List Label :=
  if suffix.isEmpty then b.labels
  else
    match b.labels with
    | [] => []
    | first :: rest => ⟨first.name, b.name ++ suffix⟩ :: rest

/-- The metric's labels with `suffix`, and `extra` appended. -/
def SeriesBuilder.labelsWith (b : SeriesBuilder) (debugStr : String → String) (suffix : String)
    (extra : Option Label) : Except String (List Label) :=
  let labels := b.named suffix
  match extra with
  | none => .ok labels
  | some l =>
      if labels.any (·.name == l.name) then
        .error ("label " ++ debugStr l.name ++ " collides with the " ++ debugStr l.name ++
          " the series derives")
      else .ok (labels ++ [l])

/-- The staleness identity: the labels, then whether the series is a native histogram. -/
def identityHashOf (labels : List Label) (native : Bool) : UInt64 :=
  let hasher := labels.foldl (fun (h : FxHasher) l =>
    (h.write (utf8Bytes l.name)).write (utf8Bytes l.value)) FxHasher.default
  (hasher.write [if native then 1 else 0]).finish

def SeriesBuilder.series (b : SeriesBuilder) (labels : List Label) (value : F64)
    (histogram : Option Histogram) : TimeSeries where
  labels := labels
  sample := { value := value, timestamp := b.timestamp }
  identityHash := identityHashOf labels histogram.isSome
  histogram := histogram

/-- A float series named after the family plus `suffix`, with an optional derived label. -/
def SeriesBuilder.float (b : SeriesBuilder) (debugStr : String → String) (suffix : String)
    (extra : Option Label) (value : F64) : Except String TimeSeries :=
  (b.labelsWith debugStr suffix extra).map fun labels => b.series labels value none

def SeriesBuilder.histogram (b : SeriesBuilder) (histogram : Histogram) : TimeSeries :=
  b.series b.labels F64.zero (some histogram)

def SeriesBuilder.summary (b : SeriesBuilder) (debugStr : String → String)
    (summary : Dto.Summary) : Except String (List TimeSeries) := do
  let count ← b.float debugStr "_count" none (toF64 (summary.sampleCount.getD 0))
  let sum ← b.float debugStr "_sum" none (orZero summary.sampleSum)
  let quantiles ← summary.quantile.mapM fun q =>
    b.float debugStr "" (some ⟨"quantile", formatFloat (orZero q.quantile)⟩) (orZero q.value)
  .ok (count :: sum :: quantiles)

/-- A float count if it is positive, else the integer count. -/
def countOf (float : Option F64) (int : Option UInt64) : F64 :=
  match float with
  | some count => if isPositive count then count else toF64 (int.getD 0)
  | none => toF64 (int.getD 0)

/-- Whether the last bucket is the `+Inf` bucket. -/
def endsAtInfinity (buckets : List Dto.Bucket) : Bool :=
  match buckets.getLast? with
  | some bucket => bucket.upperBound == some F64.infinity
  | none => false

/-- The classic `_count`, `_sum` and `_bucket` series, plus the `+Inf` bucket when it is implicit. -/
def SeriesBuilder.classicHistogram (b : SeriesBuilder) (debugStr : String → String)
    (histogram : Dto.Histogram) : Except String (List TimeSeries) := do
  let count := countOf histogram.sampleCountFloat histogram.sampleCount
  let countSeries ← b.float debugStr "_count" none count
  let sumSeries ← b.float debugStr "_sum" none (orZero histogram.sampleSum)
  let buckets ← histogram.bucket.mapM fun bucket =>
    b.float debugStr "_bucket" (some ⟨"le", formatFloat (orZero bucket.upperBound)⟩)
      (countOf bucket.cumulativeCountFloat bucket.cumulativeCount)
  if endsAtInfinity histogram.bucket then .ok (countSeries :: sumSeries :: buckets)
  else
    let inf ← b.float debugStr "_bucket" (some ⟨"le", "+Inf"⟩) count
    .ok (countSeries :: sumSeries :: (buckets ++ [inf]))

/-- The native series of a histogram metric, if there is one. -/
def SeriesBuilder.nativeSeries (b : SeriesBuilder) (gauge : Bool) (options : ProtobufOptions)
    (histogram : Dto.Histogram) : Except String (List TimeSeries) :=
  if options.nativeHistograms && isNative histogram then
    (nativeHistogram histogram gauge options.bucketLimit).map
      fun converted => [b.histogram converted]
  else .ok []

/-- The classic series: without a native one, or next to it if the job asks for both. -/
def SeriesBuilder.classicSeries (b : SeriesBuilder) (debugStr : String → String)
    (options : ProtobufOptions) (histogram : Dto.Histogram) : Except String (List TimeSeries) :=
  if !(options.nativeHistograms && isNative histogram) ||
      (options.classicHistograms && !histogram.bucket.isEmpty) then
    b.classicHistogram debugStr histogram
  else .ok []

/-- The series of a histogram metric. -/
def SeriesBuilder.histograms (b : SeriesBuilder) (debugStr : String → String) (gauge : Bool)
    (options : ProtobufOptions) (histogram : Dto.Histogram) : Except String (List TimeSeries) := do
  let native ← b.nativeSeries gauge options histogram
  let classic ← b.classicSeries debugStr options histogram
  .ok (native ++ classic)

/-- The series of one metric of the given kind. -/
def SeriesBuilder.metric (b : SeriesBuilder) (debugStr : String → String)
    (kind : Dto.MetricType) (options : ProtobufOptions) (metric : Dto.Metric) :
    Except String (List TimeSeries) :=
  match kind with
  | .counter => (b.float debugStr "" none (orZero (metric.counter.bind id))).map ([·])
  | .gauge => (b.float debugStr "" none (orZero (metric.gauge.bind id))).map ([·])
  | .untyped => (b.float debugStr "" none (orZero (metric.untyped.bind id))).map ([·])
  | .summary => b.summary debugStr (metric.summary.getD Dto.Summary.default)
  | .histogram =>
      b.histograms debugStr false options (metric.histogram.getD Dto.Histogram.default)
  | .gaugeHistogram =>
      b.histograms debugStr true options (metric.histogram.getD Dto.Histogram.default)

/-- An exposed timestamp of 0 means "none". -/
def metricTimestamp (metric : Dto.Metric) (defaultTimestampMs : Int64)
    (options : ProtobufOptions) : Int64 :=
  match metric.timestampMs with
  | some timestamp =>
      if options.honorTimestamps && timestamp != 0 then timestamp else defaultTimestampMs
  | none => defaultTimestampMs

def convertMetric (debugStr : String → String) (name : String) (kind : Dto.MetricType)
    (defaultTimestampMs : Int64) (options : ProtobufOptions) (metric : Dto.Metric) :
    Except String (List TimeSeries) := do
  let labels ← baseLabels debugStr name metric.label
  let builder : SeriesBuilder := {
    name := name
    labels := labels
    timestamp := metricTimestamp metric defaultTimestampMs options }
  builder.metric debugStr kind options metric

def convertFamily (debugStr : String → String) (family : Dto.MetricFamily)
    (defaultTimestampMs : Int64) (options : ProtobufOptions) : Except String (List TimeSeries) :=
  let name := family.name.getD ""
  if name.isEmpty then .error "metric family without a name"
  else if !isValidName name true then .error ("invalid metric name " ++ debugStr name)
  else
    let rawType := family.type.getD 0
    match Dto.MetricType.ofInt32? rawType with
    | none => .error ("unknown metric type " ++ toString rawType.toInt)
    | some kind =>
        (family.metric.mapM (convertMetric debugStr name kind defaultTimestampMs options)).map
          List.flatten

/-! ## Bodies -/

/-- The rounds of `parse`, `index` families done. A family takes at least one byte, so a round for
each byte is enough. -/
def parseFamilies (prost : ProstDecoder) (defaultTimestampMs : Int64) (options : ProtobufOptions) :
    Nat → Nat → List UInt8 → Except String (List TimeSeries)
  | 0, _, _ => .ok []
  | n + 1, index, rest =>
      if rest.isEmpty then .ok []
      else
        match prost.decode rest with
        | .error err =>
            .error ("metric family #" ++ toString (index + 1) ++ ": " ++ err)
        | .ok (family, rest) =>
            match convertFamily prost.debugStr family defaultTimestampMs options with
            | .error message =>
                .error ("metric family " ++ prost.debugStr (family.name.getD "") ++ ": " ++ message)
            | .ok series =>
                (parseFamilies prost defaultTimestampMs options n (index + 1) rest).map (series ++ ·)

/-- Parse a delimited `MetricFamily` stream. -/
def parseProtobuf (prost : ProstDecoder) (body : List UInt8) (defaultTimestampMs : Int64)
    (options : ProtobufOptions) : Except String (List TimeSeries) :=
  parseFamilies prost defaultTimestampMs options body.length 0 body

end PromScrape
