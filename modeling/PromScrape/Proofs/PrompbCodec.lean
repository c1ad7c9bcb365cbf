import PromScrape.Spec.Prompb

set_option autoImplicit false

/-! # Decoding the prompb messages gives them back

For every message type of `Spec/Prompb.lean`, decoding its fields yields the message again, up to
the one thing proto3 does not transport: the sign of a zero in a double field that is left out at
its default (`unsignZero`). Each field kind has its rule (`foldlM_doubleField`,
`foldlM_deltasField`, …); a message's proof strings the rules of its fields together. -/

namespace PromScrape

open Utf8 (utf8Bytes)
open ProtoWire

/-! ## One rule per field kind -/

section FieldRules

variable {σ : Type} {step : σ → Field → Option σ}

theorem foldlM_doubleField {number : Nat} (set : σ → F64 → σ) (x : F64) (s : σ)
    (hstep : ∀ v : F64, step s ⟨number, .fixed64 v.bits⟩ = some (set s v))
    (hdefault : set s .zero = s) :
    (doubleField number x).foldlM step s = some (set s x.unsignZero) := by
  refine foldlM_scalarField (fun hz => ?_) (fun hz => ?_)
  · rw [F64.unsignZero_of_isZero hz, hdefault]
  · rw [hstep, F64.unsignZero_of_not_isZero hz]

theorem foldlM_int64Field {number : Nat} (set : σ → Int64 → σ) (x : Int64) (s : σ)
    (hstep : ∀ v : Int64, step s ⟨number, .varint v.toUInt64⟩ = some (set s v))
    (hdefault : set s 0 = s) : (int64Field number x).foldlM step s = some (set s x) := by
  refine foldlM_scalarField (fun hz => ?_) (fun _ => hstep x)
  rw [of_decide_eq_true hz, hdefault]

theorem foldlM_sint32Field {number : Nat} (set : σ → Int32 → σ) (x : Int32) (s : σ)
    (hstep : ∀ v z, asSint32 v = some z → step s ⟨number, v⟩ = some (set s z))
    (hdefault : set s 0 = s) : (sint32Field number x).foldlM step s = some (set s x) := by
  refine foldlM_scalarField (fun hz => ?_) (fun _ => hstep _ _ (asSint32_zigzag x))
  rw [of_decide_eq_true hz, hdefault]

theorem asDeltas_packed (deltas : List Int64) :
    asDeltas (.len ((deltas.map (fun d => UInt64.ofNat (zigzagNat d.toInt))).flatMap varint))
      = some deltas := by
  have hback : ∀ d : Int64, Int64.ofInt (unzigzag (UInt64.ofNat (zigzagNat d.toInt)).toNat) = d :=
    fun d => Option.some.inj (asSint64_zigzag d)
  rw [asDeltas, asRepeatedVarint_packed, Option.map_some, List.map_map]
  exact congrArg some (List.map_id'' hback deltas)

theorem foldlM_deltasField {number : Nat} (add : σ → List Int64 → σ) (xs : List Int64) (s : σ)
    (hstep : ∀ v ds, asDeltas v = some ds → step s ⟨number, v⟩ = some (add s ds))
    (hnil : add s [] = s) : (deltasField number xs).foldlM step s = some (add s xs) := by
  refine foldlM_scalarField (fun hz => ?_) (fun _ => hstep _ _ (asDeltas_packed xs))
  rw [List.isEmpty_iff.1 hz, hnil]

theorem asCounts_packed (counts : List F64) :
    asCounts (.len ((counts.map F64.bits).flatMap (fun v => leBytes 8 v.toNat))) = some counts := by
  simp [asCounts, asRepeatedFixed64_packed, Function.comp_def]

theorem foldlM_countsField {number : Nat} (add : σ → List F64 → σ) (xs : List F64) (s : σ)
    (hstep : ∀ v cs, asCounts v = some cs → step s ⟨number, v⟩ = some (add s cs))
    (hnil : add s [] = s) : (countsField number xs).foldlM step s = some (add s xs) := by
  refine foldlM_scalarField (fun hz => ?_) (fun _ => hstep _ _ (asCounts_packed xs))
  rw [List.isEmpty_iff.1 hz, hnil]

theorem asRefs_packed (refs : List UInt32) :
    asRefs (.len ((refs.map UInt32.toUInt64).flatMap varint)) = some refs := by
  simp [asRefs, asRepeatedVarint_packed, Function.comp_def]

theorem foldlM_refsField {number : Nat} (add : σ → List UInt32 → σ) (xs : List UInt32) (s : σ)
    (hstep : ∀ v rs, asRefs v = some rs → step s ⟨number, v⟩ = some (add s rs))
    (hnil : add s [] = s) : (refsField number xs).foldlM step s = some (add s xs) := by
  refine foldlM_scalarField (fun hz => ?_) (fun _ => hstep _ _ (asRefs_packed xs))
  rw [List.isEmpty_iff.1 hz, hnil]

end FieldRules

/-! ## Labels, samples, spans -/

theorem Label.numbered_fields (l : Label) : Numbered l.fields := by simp [Label.fields]

theorem Label.decode_fields (l : Label) (hfit : (encodeFields l.fields).length < 2 ^ 64) :
    Label.decode (encodeFields l.fields) = some l := by
  rw [Label.decode, decodeMessage_encodeFields _ _ _ l.numbered_fields hfit]
  have hname : (scalarField 1 l.name.isEmpty (.len (utf8Bytes l.name))).foldlM Label.step ⟨"", ""⟩
      = some ⟨l.name, ""⟩ := by
    refine foldlM_scalarField (fun hz => ?_) (fun _ => by simp [Label.step])
    rw [String.isEmpty_iff.1 hz]
  have hvalue : (scalarField 2 l.value.isEmpty (.len (utf8Bytes l.value))).foldlM Label.step
      ⟨l.name, ""⟩ = some l := by
    refine foldlM_scalarField (fun hz => ?_) (fun _ => by simp [Label.step])
    rw [← String.isEmpty_iff.1 hz]
  exact foldlM_append_of hname hvalue

/-- A sample as it travels: a zero value loses its sign. -/
def Sample.unsignZero (s : Sample) : Sample := { s with value := s.value.unsignZero }

theorem Sample.numbered_fields (s : Sample) : Numbered s.fields := by
  simp [Sample.fields, doubleField, int64Field]

theorem Sample.decode_fields (s : Sample) (hfit : (encodeFields s.fields).length < 2 ^ 64) :
    Sample.decode (encodeFields s.fields) = some s.unsignZero := by
  rw [Sample.decode, decodeMessage_encodeFields _ _ _ s.numbered_fields hfit]
  exact foldlM_append_of
    (foldlM_doubleField (fun (t : Sample) v => { t with value := v }) s.value ⟨.zero, 0⟩
      (fun _ => rfl) rfl)
    (foldlM_int64Field (fun (t : Sample) v => { t with timestamp := v }) s.timestamp _
      (fun _ => by simp [Sample.step, asInt64, asUint64]) rfl)

theorem BucketSpan.numbered_fields (s : BucketSpan) : Numbered s.fields := by
  simp [BucketSpan.fields, sint32Field]

theorem BucketSpan.decode_fields (s : BucketSpan) (hfit : (encodeFields s.fields).length < 2 ^ 64) :
    BucketSpan.decode (encodeFields s.fields) = some s := by
  rw [BucketSpan.decode, decodeMessage_encodeFields _ _ _ s.numbered_fields hfit]
  have hlength : (scalarField 2 (s.length = 0) (.varint s.length.toUInt64)).foldlM BucketSpan.step
      ⟨s.offset, 0⟩ = some s := by
    refine foldlM_scalarField (fun hz => ?_) (fun _ => by simp [BucketSpan.step, asUint32, asUint64])
    rw [← of_decide_eq_true hz]
  exact foldlM_append_of
    (foldlM_sint32Field (fun (t : BucketSpan) v => { t with offset := v }) s.offset ⟨0, 0⟩
      (fun v z h => by simp [BucketSpan.step, h]) rfl)
    hlength

/-! ## Histograms -/

/-- A histogram as it travels: a zero sum or threshold loses its sign. -/
def WireHistogram.unsignZero (h : WireHistogram) : WireHistogram :=
  { h with sum := h.sum.unsignZero, zeroThreshold := h.zeroThreshold.unsignZero }

theorem numbered_countField {i f : Nat} (c : Option HistogramCount) (hi : 1 ≤ i ∧ i < 2 ^ 29)
    (hf : 1 ≤ f ∧ f < 2 ^ 29) : Numbered (countField i f c) := by
  unfold countField
  split
  · exact numbered_cons.2 ⟨hi, numbered_nil⟩
  · exact numbered_cons.2 ⟨hf, numbered_nil⟩
  · exact numbered_nil

theorem WireHistogram.numbered_fields (h : WireHistogram) : Numbered h.fields := by
  have hcount := numbered_countField h.count (show 1 ≤ 1 ∧ 1 < 2 ^ 29 by decide)
    (show 1 ≤ 2 ∧ 2 < 2 ^ 29 by decide)
  have hzero := numbered_countField h.zeroCount (show 1 ≤ 6 ∧ 6 < 2 ^ 29 by decide)
    (show 1 ≤ 7 ∧ 7 < 2 ^ 29 by decide)
  have hspans : ∀ (n : Nat) (spans : List BucketSpan), 1 ≤ n ∧ n < 2 ^ 29 →
      Numbered (spans.map (spanField n)) := fun n spans hn => numbered_map (fun _ => hn)
  simp [WireHistogram.fields, doubleField, int64Field, sint32Field, deltasField, countsField,
    hcount, hzero, hspans]

theorem foldlM_countField {i f : Nat} (set : WireHistogram → Option HistogramCount → WireHistogram)
    (c : Option HistogramCount) (s : WireHistogram)
    (hint : ∀ n, WireHistogram.step s ⟨i, .varint n⟩ = some (set s (some (.int n))))
    (hfloat : ∀ x : F64, WireHistogram.step s ⟨f, .fixed64 x.bits⟩ = some (set s (some (.float x))))
    (hnone : set s none = s) : (countField i f c).foldlM WireHistogram.step s = some (set s c) := by
  match c with
  | some (.int n) => simp [countField, hint]
  | some (.float x) => simp [countField, hfloat]
  | none => rw [hnone]; rfl

theorem foldlM_spans {n : Nat} (add : WireHistogram → List BucketSpan → WireHistogram)
    (hnil : ∀ s, add s [] = s) (hadd : ∀ s x xs, add (add s [x]) xs = add s (x :: xs))
    (hstep : ∀ s v x, asMessage BucketSpan.decode v = some x →
      WireHistogram.step s ⟨n, v⟩ = some (add s [x]))
    (spans : List BucketSpan)
    (hfit : ∀ span ∈ spans, (encodeFields span.fields).length < 2 ^ 64) (s : WireHistogram) :
    (spans.map (spanField n)).foldlM WireHistogram.step s = some (add s spans) := by
  have h := foldlM_map_append (spanField n) id add hnil hadd spans
    (fun s span hspan => hstep s _ span (BucketSpan.decode_fields span (hfit span hspan))) s
  rwa [List.map_id] at h

theorem asInt32_int32 (x : Int32) : asInt32 (.varint x.toInt64.toUInt64) = some x := by
  have hback := congrArg Int32.toBitVec (Int32.toInt32_toInt64 x)
  rw [Int64.toBitVec_toInt32, BitVec.signExtend_eq_setWidth_of_le _ (by decide)] at hback
  exact congrArg some (Int32.toBitVec.inj hback)

/-- The span, delta and count fields of one side of a histogram, negative or positive. -/
theorem WireHistogram.foldlM_buckets {n : Nat}
    (add : WireHistogram → List BucketSpan → List Int64 → List F64 → WireHistogram)
    (hnil : ∀ t, add t [] [] [] = t)
    (hadd : ∀ t spans spans' ds ds' cs cs',
      add (add t spans ds cs) spans' ds' cs' = add t (spans ++ spans') (ds ++ ds') (cs ++ cs'))
    (hspan : ∀ t v x, asMessage BucketSpan.decode v = some x →
      WireHistogram.step t ⟨n, v⟩ = some (add t [x] [] []))
    (hdeltas : ∀ t v ds, asDeltas v = some ds →
      WireHistogram.step t ⟨n + 1, v⟩ = some (add t [] ds []))
    (hcounts : ∀ t v cs, asCounts v = some cs →
      WireHistogram.step t ⟨n + 2, v⟩ = some (add t [] [] cs))
    (spans : List BucketSpan) (deltas : List Int64) (counts : List F64)
    (hfit : ∀ span ∈ spans, (encodeFields span.fields).length < 2 ^ 64) (t : WireHistogram) :
    (spans.map (spanField n) ++ (deltasField (n + 1) deltas ++ countsField (n + 2) counts)).foldlM
      WireHistogram.step t = some (add t spans deltas counts) := by
  have h1 : (spans.map (spanField n)).foldlM WireHistogram.step t = some (add t spans [] []) :=
    foldlM_spans (fun t xs => add t xs [] []) hnil (fun s x xs => by simp [hadd]) hspan spans hfit t
  have h2 : (deltasField (n + 1) deltas).foldlM WireHistogram.step (add t spans [] [])
      = some (add t spans deltas []) := by
    have h := foldlM_deltasField (fun t ds => add t [] ds []) deltas (add t spans [] [])
      (hdeltas _) (hnil _)
    simpa [hadd] using h
  have h3 : (countsField (n + 2) counts).foldlM WireHistogram.step (add t spans deltas [])
      = some (add t spans deltas counts) := by
    have h := foldlM_countsField (fun t cs => add t [] [] cs) counts (add t spans deltas [])
      (hcounts _) (hnil _)
    simpa [hadd] using h
  exact foldlM_append_of h1 (foldlM_append_of h2 h3)

/-- The bucket fields of the negative side append to the three negative lists. -/
theorem WireHistogram.foldlM_negative (spans : List BucketSpan) (deltas : List Int64)
    (counts : List F64) (hfit : ∀ span ∈ spans, (encodeFields span.fields).length < 2 ^ 64)
    (t : WireHistogram) :
    (spans.map (spanField 8) ++ (deltasField 9 deltas ++ countsField 10 counts)).foldlM
      WireHistogram.step t = some { t with
        negativeSpans := t.negativeSpans ++ spans
        negativeDeltas := t.negativeDeltas ++ deltas
        negativeCounts := t.negativeCounts ++ counts } :=
  foldlM_buckets (n := 8) (fun t spans deltas counts => { t with
      negativeSpans := t.negativeSpans ++ spans
      negativeDeltas := t.negativeDeltas ++ deltas
      negativeCounts := t.negativeCounts ++ counts })
    (fun t => by simp) (fun t _ _ _ _ _ _ => by simp)
    (fun t v x hv => by simp [WireHistogram.step, hv])
    (fun t v ds hv => by simp [WireHistogram.step, hv])
    (fun t v cs hv => by simp [WireHistogram.step, hv]) spans deltas counts hfit t

/-- The bucket fields of the positive side append to the three positive lists. -/
theorem WireHistogram.foldlM_positive (spans : List BucketSpan) (deltas : List Int64)
    (counts : List F64) (hfit : ∀ span ∈ spans, (encodeFields span.fields).length < 2 ^ 64)
    (t : WireHistogram) :
    (spans.map (spanField 11) ++ (deltasField 12 deltas ++ countsField 13 counts)).foldlM
      WireHistogram.step t = some { t with
        positiveSpans := t.positiveSpans ++ spans
        positiveDeltas := t.positiveDeltas ++ deltas
        positiveCounts := t.positiveCounts ++ counts } :=
  foldlM_buckets (n := 11) (fun t spans deltas counts => { t with
      positiveSpans := t.positiveSpans ++ spans
      positiveDeltas := t.positiveDeltas ++ deltas
      positiveCounts := t.positiveCounts ++ counts })
    (fun t => by simp) (fun t _ _ _ _ _ _ => by simp)
    (fun t v x hv => by simp [WireHistogram.step, hv])
    (fun t v ds hv => by simp [WireHistogram.step, hv])
    (fun t v cs hv => by simp [WireHistogram.step, hv]) spans deltas counts hfit t

theorem WireHistogram.decode_fields (h : WireHistogram)
    (hfit : (encodeFields h.fields).length < 2 ^ 64) :
    WireHistogram.decode (encodeFields h.fields) = some h.unsignZero := by
  have hneg : ∀ span ∈ h.negativeSpans, (encodeFields span.fields).length < 2 ^ 64 := by
    intro span hspan
    have hmem : spanField 8 span ∈ h.fields := by
      simp [WireHistogram.fields, List.mem_map_of_mem hspan]
    exact lt_of_le_of_lt (payload_length_le_body hmem) hfit
  have hpos : ∀ span ∈ h.positiveSpans, (encodeFields span.fields).length < 2 ^ 64 := by
    intro span hspan
    have hmem : spanField 11 span ∈ h.fields := by
      simp [WireHistogram.fields, List.mem_map_of_mem hspan]
    exact lt_of_le_of_lt (payload_length_le_body hmem) hfit
  have hcount : (countField 1 2 h.count).foldlM step empty
      = some ⟨h.count, .zero, 0, .zero, none, [], [], [], [], [], [], 0, 0⟩ :=
    foldlM_countField (fun t c => { t with count := c }) h.count _
      (fun _ => by simp [step, asUint64, empty]) (fun _ => by simp [step, asDouble, empty]) rfl
  have hsum : (doubleField 3 h.sum).foldlM step
      ⟨h.count, .zero, 0, .zero, none, [], [], [], [], [], [], 0, 0⟩
      = some ⟨h.count, h.sum.unsignZero, 0, .zero, none, [], [], [], [], [], [], 0, 0⟩ :=
    foldlM_doubleField (fun (t : WireHistogram) x => { t with sum := x }) h.sum _
      (fun _ => by simp [step, asDouble]) rfl
  have hschema : (sint32Field 4 h.schema).foldlM step
      ⟨h.count, h.sum.unsignZero, 0, .zero, none, [], [], [], [], [], [], 0, 0⟩
      = some ⟨h.count, h.sum.unsignZero, h.schema, .zero, none, [], [], [], [], [], [], 0, 0⟩ :=
    foldlM_sint32Field (fun (t : WireHistogram) x => { t with schema := x }) h.schema _
      (fun v z hv => by simp [step, hv]) rfl
  have hthreshold : (doubleField 5 h.zeroThreshold).foldlM step
      ⟨h.count, h.sum.unsignZero, h.schema, .zero, none, [], [], [], [], [], [], 0, 0⟩
      = some ⟨h.count, h.sum.unsignZero, h.schema, h.zeroThreshold.unsignZero, none,
          [], [], [], [], [], [], 0, 0⟩ :=
    foldlM_doubleField (fun (t : WireHistogram) x => { t with zeroThreshold := x }) h.zeroThreshold _
      (fun _ => by simp [step, asDouble]) rfl
  have hzero : (countField 6 7 h.zeroCount).foldlM step
      ⟨h.count, h.sum.unsignZero, h.schema, h.zeroThreshold.unsignZero, none,
        [], [], [], [], [], [], 0, 0⟩
      = some ⟨h.count, h.sum.unsignZero, h.schema, h.zeroThreshold.unsignZero, h.zeroCount,
          [], [], [], [], [], [], 0, 0⟩ :=
    foldlM_countField (fun t c => { t with zeroCount := c }) h.zeroCount _
      (fun _ => by simp [step, asUint64]) (fun _ => by simp [step, asDouble]) rfl
  have hreset : (scalarField 14 (h.resetHint = 0) (.varint h.resetHint.toInt64.toUInt64)).foldlM step
      { h.unsignZero with resetHint := 0, timestamp := 0 }
      = some { h.unsignZero with timestamp := 0 } := by
    refine foldlM_scalarField (fun hz => ?_) (fun _ => by simp [step, asInt32_int32, unsignZero])
    simp [unsignZero, of_decide_eq_true hz]
  have htimestamp : (int64Field 15 h.timestamp).foldlM step { h.unsignZero with timestamp := 0 }
      = some h.unsignZero :=
    foldlM_int64Field (fun (t : WireHistogram) x => { t with timestamp := x }) h.timestamp _
      (fun _ => by simp [step, asInt64, asUint64]) rfl
  -- each field of the message updates its own member of the value so far
  rw [WireHistogram.decode, decodeMessage_encodeFields _ _ _ h.numbered_fields hfit]
  simp only [fields, List.append_assoc]
  refine foldlM_append_of hcount (foldlM_append_of hsum (foldlM_append_of hschema
    (foldlM_append_of hthreshold (foldlM_append_of hzero ?_))))
  have hnegative := foldlM_negative h.negativeSpans h.negativeDeltas h.negativeCounts hneg
    ⟨h.count, h.sum.unsignZero, h.schema, h.zeroThreshold.unsignZero, h.zeroCount,
      [], [], [], [], [], [], 0, 0⟩
  have hpositive := foldlM_positive h.positiveSpans h.positiveDeltas h.positiveCounts hpos
    ⟨h.count, h.sum.unsignZero, h.schema, h.zeroThreshold.unsignZero, h.zeroCount,
      h.negativeSpans, h.negativeDeltas, h.negativeCounts, [], [], [], 0, 0⟩
  have hrest := foldlM_append_of hnegative
    (foldlM_append_of hpositive (foldlM_append_of hreset htimestamp))
  simpa only [List.append_assoc] using hrest

/-! ## Series and requests -/

/-- A series as it travels. -/
def PbTimeSeries.unsignZero (s : PbTimeSeries) : PbTimeSeries :=
  { s with
    samples := s.samples.map Sample.unsignZero
    histograms := s.histograms.map WireHistogram.unsignZero }

def PbWriteRequest.unsignZero (r : PbWriteRequest) : PbWriteRequest :=
  ⟨r.timeseries.map PbTimeSeries.unsignZero⟩

theorem PbTimeSeries.numbered_fields (s : PbTimeSeries) : Numbered s.fields := by
  have hlabels : Numbered (s.labels.map labelField) := numbered_map (fun _ => by simp [labelField])
  have hsamples : Numbered (s.samples.map (sampleField 2)) :=
    numbered_map (fun _ => by simp [sampleField])
  have hhistograms : Numbered (s.histograms.map (histogramField 4)) :=
    numbered_map (fun _ => by simp [histogramField])
  simp [PbTimeSeries.fields, hlabels, hsamples, hhistograms]

/-- The sample fields of a series message, 1.0 or 2.0. -/
theorem foldlM_samples {σ : Type} {step : σ → Field → Option σ} (add : σ → List Sample → σ)
    (hnil : ∀ s, add s [] = s) (hadd : ∀ s y ys, add (add s [y]) ys = add s (y :: ys))
    (hstep : ∀ s v x, asMessage Sample.decode v = some x → step s ⟨2, v⟩ = some (add s [x]))
    (xs : List Sample) (hfit : ∀ x ∈ xs, (encodeFields x.fields).length < 2 ^ 64) (s : σ) :
    (xs.map (sampleField 2)).foldlM step s = some (add s (xs.map Sample.unsignZero)) :=
  foldlM_map_append (sampleField 2) Sample.unsignZero add hnil hadd xs
    (fun s x hx => hstep s _ _ (x.decode_fields (hfit x hx))) s

/-- The histogram fields of a series message, 1.0 or 2.0. -/
theorem foldlM_histograms {σ : Type} {step : σ → Field → Option σ} {n : Nat}
    (add : σ → List WireHistogram → σ) (hnil : ∀ s, add s [] = s)
    (hadd : ∀ s y ys, add (add s [y]) ys = add s (y :: ys))
    (hstep : ∀ s v x, asMessage WireHistogram.decode v = some x → step s ⟨n, v⟩ = some (add s [x]))
    (xs : List WireHistogram) (hfit : ∀ x ∈ xs, (encodeFields x.fields).length < 2 ^ 64) (s : σ) :
    (xs.map (histogramField n)).foldlM step s = some (add s (xs.map WireHistogram.unsignZero)) := by
  refine foldlM_map_append (histogramField n) WireHistogram.unsignZero add hnil hadd xs
    (fun s x hx => ?_) s
  have hdec : asMessage WireHistogram.decode (.len (encodeFields x.fields)) = some x.unsignZero := by
    rw [asMessage, x.decode_fields (hfit x hx)]
  exact hstep s _ _ hdec

/-- Each element of a repeated message field fits if the body does. -/
theorem payloads_fit {α : Type} {number : Nat} {payload : α → List UInt8} {xs : List α}
    {fs : List Field} (hfit : (encodeFields fs).length < 2 ^ 64)
    (hmem : ∀ x ∈ xs, ⟨number, .len (payload x)⟩ ∈ fs) : ∀ x ∈ xs, (payload x).length < 2 ^ 64 :=
  fun x hx => lt_of_le_of_lt (payload_length_le_body (hmem x hx)) hfit

theorem PbTimeSeries.decode_fields (s : PbTimeSeries)
    (hfit : (encodeFields s.fields).length < 2 ^ 64) :
    PbTimeSeries.decode (encodeFields s.fields) = some s.unsignZero := by
  have hlabels : (s.labels.map labelField).foldlM step ⟨[], [], []⟩ = some ⟨s.labels, [], []⟩ := by
    have hmem : ∀ l ∈ s.labels, labelField l ∈ s.fields := fun l hl => by
      simp [fields, List.mem_map_of_mem hl]
    have hstep : ∀ (t : PbTimeSeries), ∀ l ∈ s.labels,
        step t (labelField l) = some { t with labels := t.labels ++ [id l] } := fun t l hl => by
      have hdec := l.decode_fields (payloads_fit hfit hmem l hl)
      simp [step, labelField, asMessage, hdec]
    have h := foldlM_map_append labelField id
      (fun (t : PbTimeSeries) xs => { t with labels := t.labels ++ xs }) (fun _ => by simp)
      (fun _ _ _ => by simp) s.labels hstep ⟨[], [], []⟩
    rwa [List.map_id] at h
  have hsamples : (s.samples.map (sampleField 2)).foldlM step ⟨s.labels, [], []⟩
      = some ⟨s.labels, s.samples.map Sample.unsignZero, []⟩ := by
    have hmem : ∀ x ∈ s.samples, sampleField 2 x ∈ s.fields := fun x hx => by
      simp [fields, List.mem_map_of_mem hx]
    exact foldlM_samples (fun (t : PbTimeSeries) xs => { t with samples := t.samples ++ xs })
      (fun _ => by simp) (fun _ _ _ => by simp) (fun t v x hv => by simp [step, hv])
      s.samples (payloads_fit hfit hmem) _
  have hhistograms : (s.histograms.map (histogramField 4)).foldlM step
      ⟨s.labels, s.samples.map Sample.unsignZero, []⟩ = some s.unsignZero := by
    have hmem : ∀ x ∈ s.histograms, histogramField 4 x ∈ s.fields := fun x hx => by
      simp [fields, List.mem_map_of_mem hx]
    exact foldlM_histograms (fun (t : PbTimeSeries) xs => { t with histograms := t.histograms ++ xs })
      (fun _ => by simp) (fun _ _ _ => by simp) (fun t v x hv => by simp [step, hv])
      s.histograms (payloads_fit hfit hmem) _
  rw [decode, decodeMessage_encodeFields _ _ _ s.numbered_fields hfit]
  exact foldlM_append_of (foldlM_append_of hlabels hsamples) hhistograms

/-- **Decoding a 1.0 request's fields gives the request back**, zero signs aside. -/
theorem PbWriteRequest.decode_fields (r : PbWriteRequest)
    (hfit : (encodeFields r.fields).length < 2 ^ 64) :
    PbWriteRequest.decode (encodeFields r.fields) = some r.unsignZero := by
  have hnum : Numbered r.fields := numbered_map (fun _ => by simp)
  have hseries := payloads_fit hfit (fun s (hs : s ∈ r.timeseries) => List.mem_map.2 ⟨s, hs, rfl⟩)
  rw [decode, decodeMessage_encodeFields _ _ _ hnum hfit]
  exact foldlM_map_append _ PbTimeSeries.unsignZero (fun (t : PbWriteRequest) xs => ⟨t.timeseries ++ xs⟩) (fun _ => by simp)
    (fun _ _ _ => by simp) r.timeseries
    (fun t s hs => by simp [step, asMessage, s.decode_fields (hseries s hs)]) ⟨[]⟩

/-! ## The 2.0 messages -/

/-- A 2.0 series as it travels. -/
def TimeSeriesV2.unsignZero (s : TimeSeriesV2) : TimeSeriesV2 :=
  { s with
    samples := s.samples.map Sample.unsignZero
    histograms := s.histograms.map WireHistogram.unsignZero }

def WriteRequestV2.unsignZero (r : WriteRequestV2) : WriteRequestV2 :=
  { r with timeseries := r.timeseries.map TimeSeriesV2.unsignZero }

theorem TimeSeriesV2.numbered_fields (s : TimeSeriesV2) : Numbered s.fields := by
  have hsamples : Numbered (s.samples.map (sampleField 2)) :=
    numbered_map (fun _ => by simp [sampleField])
  have hhistograms : Numbered (s.histograms.map (histogramField 3)) :=
    numbered_map (fun _ => by simp [histogramField])
  simp [TimeSeriesV2.fields, refsField, hsamples, hhistograms]

theorem TimeSeriesV2.decode_fields (s : TimeSeriesV2)
    (hfit : (encodeFields s.fields).length < 2 ^ 64) :
    TimeSeriesV2.decode (encodeFields s.fields) = some s.unsignZero := by
  have hrefs : (refsField 1 s.labelsRefs).foldlM step ⟨[], [], []⟩
      = some ⟨s.labelsRefs, [], []⟩ :=
    foldlM_refsField (fun (t : TimeSeriesV2) xs => { t with labelsRefs := t.labelsRefs ++ xs })
      s.labelsRefs _ (fun v rs hv => by simp [step, hv]) (by simp)
  have hsamples : (s.samples.map (sampleField 2)).foldlM step ⟨s.labelsRefs, [], []⟩
      = some ⟨s.labelsRefs, s.samples.map Sample.unsignZero, []⟩ := by
    have hmem : ∀ x ∈ s.samples, sampleField 2 x ∈ s.fields := fun x hx => by
      simp [fields, List.mem_map_of_mem hx]
    exact foldlM_samples (fun (t : TimeSeriesV2) xs => { t with samples := t.samples ++ xs })
      (fun _ => by simp) (fun _ _ _ => by simp) (fun t v x hv => by simp [step, hv])
      s.samples (payloads_fit hfit hmem) _
  have hhistograms : (s.histograms.map (histogramField 3)).foldlM step
      ⟨s.labelsRefs, s.samples.map Sample.unsignZero, []⟩ = some s.unsignZero := by
    have hmem : ∀ x ∈ s.histograms, histogramField 3 x ∈ s.fields := fun x hx => by
      simp [fields, List.mem_map_of_mem hx]
    exact foldlM_histograms (fun (t : TimeSeriesV2) xs => { t with histograms := t.histograms ++ xs })
      (fun _ => by simp) (fun _ _ _ => by simp) (fun t v x hv => by simp [step, hv])
      s.histograms (payloads_fit hfit hmem) _
  rw [decode, decodeMessage_encodeFields _ _ _ s.numbered_fields hfit]
  exact foldlM_append_of (foldlM_append_of hrefs hsamples) hhistograms

/-- **Decoding a 2.0 request's encoding gives the request back**, zero signs aside. -/
theorem WriteRequestV2.decode_encode (r : WriteRequestV2) (hfit : r.encode.length < 2 ^ 64) :
    WriteRequestV2.decode r.encode = some r.unsignZero := by
  have hnum : Numbered r.fields := by
    have hsymbols : Numbered (r.symbols.map symbolField) :=
      numbered_map (fun _ => by simp [symbolField])
    have hseries : Numbered (r.timeseries.map (fun s => ⟨5, .len (encodeFields s.fields)⟩)) :=
      numbered_map (fun _ => by simp)
    simp [fields, hsymbols, hseries]
  have hsymbols : (r.symbols.map symbolField).foldlM step ⟨[], []⟩ = some ⟨r.symbols, []⟩ := by
    have hstep : ∀ (t : WriteRequestV2), ∀ x ∈ r.symbols,
        step t (symbolField x) = some { t with symbols := t.symbols ++ [id x] } :=
      fun t x _ => by simp [step, symbolField]
    have h := foldlM_map_append symbolField id
      (fun (t : WriteRequestV2) xs => { t with symbols := t.symbols ++ xs }) (fun _ => by simp)
      (fun _ _ _ => by simp) r.symbols hstep ⟨[], []⟩
    rwa [List.map_id] at h
  have hfits := payloads_fit hfit (fun s (hs : s ∈ r.timeseries) => by
    simp only [fields, List.mem_append, List.mem_map]
    exact Or.inr ⟨s, hs, rfl⟩)
  have hseries : (r.timeseries.map (fun s => ⟨5, .len (encodeFields s.fields)⟩)).foldlM step
      ⟨r.symbols, []⟩ = some r.unsignZero :=
    foldlM_map_append _ TimeSeriesV2.unsignZero
      (fun (t : WriteRequestV2) xs => { t with timeseries := t.timeseries ++ xs })
      (fun _ => by simp) (fun _ _ _ => by simp) r.timeseries
      (fun t s hs => by simp [step, asMessage, s.decode_fields (hfits s hs)]) ⟨r.symbols, []⟩
  rw [decode, encode, decodeMessage_encodeFields _ _ _ hnum hfit]
  exact foldlM_append_of hsymbols hseries

end PromScrape
