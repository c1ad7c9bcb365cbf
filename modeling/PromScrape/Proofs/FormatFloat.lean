import PromScrape.Library.FloatLayout
import PromScrape.Proofs.ClassicBuckets

set_option autoImplicit false

/-! # The texts of bounds

The `le` and `quantile` labels read back as the bounds that they are written for, in Go's layout as in
Rust's. So bounds are told apart by their texts, and the series of a histogram metric are told apart
exactly when its bounds are. -/

namespace PromScrape

open Fallible
open FloatText (Digits digitsOf display display_eq lowerExp lowerExp_eq mantissaText plain quiet
  signText)
open Numerals (digits? exponent f64FromStr number takeSign withSign)

/-! ## The exponent -/

theorem mantissaText_ne_e {digits : List Char} (h : ∀ c ∈ digits, c.isDigit = true) :
    ∀ c ∈ mantissaText digits, (c != 'e') = true := by
  have hdigit : ∀ c : Char, c.isDigit = true → (c != 'e') = true := by
    rintro c hc
    rw [bne_iff_ne]
    rintro rfl
    exact absurd hc (by decide)
  intro c hc
  rw [mantissaText, List.mem_append] at hc
  rcases hc with hc | hc
  · exact hdigit c (h c (List.mem_of_mem_take hc))
  · split at hc
    · cases hc
    · rcases List.mem_cons.mp hc with rfl | hc
      · decide
      · exact hdigit c (h c (List.mem_of_mem_drop hc))

theorem signText_ne_e (x : F64) : ∀ c ∈ (signText x).toList, (c != 'e') = true := by
  intro c hc
  rw [signText] at hc
  split at hc
  · cases hc
  · obtain rfl := List.mem_singleton.mp hc
    decide

/-- The scientific text is split at its exponent. -/
theorem splitExponent_lowerExp {x : F64} (h : ∀ c ∈ (digitsOf x).1, c.isDigit = true) :
    splitExponent (lowerExp x) =
      ((signText x).toList ++ mantissaText (digitsOf x).1,
        toString ((digitsOf x).2 + ((digitsOf x).1.length : Int) - 1)) := by
  have hmantissa : ∀ c ∈ (signText x).toList ++ mantissaText (digitsOf x).1, (c != 'e') = true :=
    fun c hc => (List.mem_append.mp hc).elim (signText_ne_e x c) (mantissaText_ne_e h c)
  have hlist : (lowerExp x).toList = ((signText x).toList ++ mantissaText (digitsOf x).1) ++
      'e' :: (toString ((digitsOf x).2 + ((digitsOf x).1.length : Int) - 1)).toList := by
    rw [lowerExp_eq]
    simp
  rw [splitExponent, hlist, List.dropWhile_append_of_pos hmantissa,
    List.takeWhile_append_of_pos hmantissa]
  simp

theorem exponent_padded (e : Int) :
    exponent ('e' :: (if e < 0 then '-' else '+') ::
      (if (Nat.toDigits 10 e.natAbs).length < 2 then '0' :: Nat.toDigits 10 e.natAbs
        else Nat.toDigits 10 e.natAbs)) = some e := by
  have hdigits : digits? (if (Nat.toDigits 10 e.natAbs).length < 2 then
      '0' :: Nat.toDigits 10 e.natAbs else Nat.toDigits 10 e.natAbs) = some e.natAbs := by
    split
    · have hdigit : ∀ c ∈ '0' :: Nat.toDigits 10 e.natAbs, c.isDigit = true := by
        intro c hc
        rcases List.mem_cons.mp hc with rfl | hc
        · rfl
        · exact Nat.isDigit_of_mem_toDigits (by decide) (by decide) hc
      rw [FloatText.digits?_eq (List.cons_ne_nil _ _) hdigit]
      exact congrArg some Nat.ofDigitChars_ten_toDigits
    · exact Numerals.digits?_toDigits e.natAbs
  by_cases he : e < 0
  · rw [if_pos he]
    simp only [exponent, true_or, if_true, takeSign, hdigits, Option.map_some, withSign]
    rw [Option.some.injEq]
    omega
  · rw [if_neg he]
    simp only [exponent, true_or, if_true, takeSign, hdigits, Option.map_some, withSign]
    rw [Option.some.injEq, if_neg (by decide)]
    omega

/-! ## Reading a bound -/

theorem ofList_signText (x : F64) (cs : List Char) :
    String.ofList ((signText x).toList ++ cs) = signText x ++ String.ofList cs := by
  rw [String.ofList_append, String.ofList_toList]

/-- **The text of a bound reads back as the bound**, for every double. -/
theorem f64FromStr_formatFloat (x : F64) : f64FromStr (formatFloat x) = some (quiet x) := by
  rw [formatFloat]
  dsimp only
  split
  · next hnan =>
      rw [quiet, if_pos hnan]
      decide
  next hnan =>
  rw [FloatText.quiet_eq (UInt64.not_lt.mp hnan)]
  split
  · next hinfinity =>
      rcases FloatText.eq_infinity_or_neg hinfinity with rfl | rfl <;> decide +kernel
  next hinfinity =>
  by_cases hzero : x.bits &&& 0x7fffffffffffffff = 0
  · rcases FloatText.eq_zero_or_negZero hzero with rfl | rfl <;> decide +kernel
  have hfinite : x.bits &&& 0x7fffffffffffffff < F64.infinity.bits :=
    UInt64.lt_of_le_of_ne (UInt64.not_lt.mp hnan) hinfinity
  have h := FloatText.digitsOf_digits hzero hfinite
  rw [splitExponent_lowerExp h.digit]
  obtain ⟨e, he⟩ : ∃ e, (digitsOf x).2 + ((digitsOf x).1.length : Int) - 1 = e := ⟨_, rfl⟩
  have hrange : (Int64.ofInt e).toInt = e := by
    have hlow := h.reads.low
    have hlength := h.length
    exact Int64.toInt_ofInt_of_le (by omega) (by omega)
  have hparse : ((Numerals.i64FromStr (toString e)).map Int64.toInt).getD 0 = e := by
    have hread := Numerals.i64FromStr_toString (Int64.ofInt e)
    rw [hrange] at hread
    rw [hread, Option.map_some, Option.getD_some, hrange]
  simp only [he, hparse]
  split
  · -- The layout of `Display`, with a point if it has none.
    rw [display_eq, String.toList_append, String.toList_ofList]
    split
    · rw [ofList_signText]
      exact FloatText.f64FromStr_signed (FloatText.number_plain h)
    · next hany =>
        have hpoint : '.' ∉ plain (digitsOf x).1 (digitsOf x).2 := fun hmem =>
          hany (List.any_eq_true.mpr ⟨'.', List.mem_append_right _ hmem, rfl⟩)
        rw [List.append_assoc, ofList_signText]
        exact FloatText.f64FromStr_signed (FloatText.number_plain_point h hpoint)
  · -- The layout with an exponent, which never needs a point.
    rw [if_pos (List.any_eq_true.mpr ⟨'e', by simp, rfl⟩), List.append_assoc, ofList_signText]
    refine FloatText.f64FromStr_signed (FloatText.number_mantissaText h ?_)
    rw [exponent_padded, he]

/-- Bounds have the same text exactly when they are the same, all NaNs being one. -/
theorem formatFloat_eq_iff {x y : F64} : formatFloat x = formatFloat y ↔ quiet x = quiet y := by
  constructor
  · intro h
    have hread := f64FromStr_formatFloat x
    rw [h, f64FromStr_formatFloat y] at hread
    exact (Option.some.inj hread).symm
  · intro h
    by_cases hnan : F64.infinity.bits < x.bits &&& 0x7fffffffffffffff
    · have hquiet : F64.infinity.bits < (quiet y).bits &&& 0x7fffffffffffffff := by
        rw [← h, quiet, if_pos hnan]
        decide
      have hnan' : F64.infinity.bits < y.bits &&& 0x7fffffffffffffff := by
        by_contra hnot
        rw [quiet, if_neg hnot] at hquiet
        exact hnot hquiet
      rw [formatFloat, formatFloat]
      simp only [hnan, hnan', if_true]
    · have hquiet : ¬ F64.infinity.bits < (quiet y).bits &&& 0x7fffffffffffffff := by
        rwa [← h, quiet, if_neg hnan]
      have hnan' : ¬ F64.infinity.bits < y.bits &&& 0x7fffffffffffffff := by
        intro hy
        rw [quiet, if_pos hy] at hquiet
        exact hquiet (by decide)
      rw [quiet, quiet, if_neg hnan, if_neg hnan'] at h
      rw [h]

/-! ## Reading buckets -/

/-- What a series says to a reader of the classic buckets of a histogram: the bound in its `le` label
    and its value. -/
def readBucket (name : String) (s : TimeSeries) : Option (F64 × F64) :=
  if s.labels.contains ⟨metricNameLabel, name ++ "_bucket"⟩ then
    (s.labels.find? (·.name == "le")).bind fun l => (f64FromStr l.value).map (·, s.sample.value)
  else none

/-- The classic buckets of a histogram: upper bounds and cumulative counts, up to infinity. -/
def cumulativeBuckets (histogram : Dto.Histogram) : List (F64 × F64) :=
  histogram.bucket.map (fun bucket => (quiet (orZero bucket.upperBound),
      countOf bucket.cumulativeCountFloat bucket.cumulativeCount)) ++
    if endsAtInfinity histogram.bucket then []
    else [(F64.infinity, countOf histogram.sampleCountFloat histogram.sampleCount)]

section

variable {b : SeriesBuilder} {debugStr : String → String} {series : List TimeSeries}

theorem readBucket_other (hb : b.WellNamed) {kind : HistogramSeries} {s : TimeSeries}
    (hlabels : s.labels = b.labelsOf kind) (hkind : kind.suffix ≠ "_bucket") :
    readBucket b.name s = none := by
  rw [readBucket, if_neg]
  rw [List.contains_iff_mem, hlabels]
  exact fun hmem => hkind (suffix_of_mem hb hmem).symm

theorem readBucket_bucket (hb : b.WellNamed) (hfresh : "le" ∉ b.labels.tail.map Label.name)
    {le : String} {s : TimeSeries} (hlabels : s.labels = b.labelsOf (.bucket le)) {bound : F64}
    (hle : f64FromStr le = some bound) : readBucket b.name s = some (bound, s.sample.value) := by
  have hname : s.labels.contains ⟨metricNameLabel, b.name ++ "_bucket"⟩ = true := by
    rw [List.contains_iff_mem, hlabels]
    exact (mem_labelsOf hb).mpr (.inl rfl)
  have hfind : s.labels.find? (·.name == "le") = some ⟨"le", le⟩ := by
    rw [hlabels, SeriesBuilder.labelsOf, named_eq hb, List.cons_append, List.find?_cons_of_neg,
      List.find?_append, List.find?_eq_none.mpr]
    · rfl
    · intro l hl
      rw [beq_iff_eq]
      exact fun heq => hfresh (heq ▸ List.mem_map_of_mem hl)
    · exact fun heq => absurd heq (by decide : ¬ (metricNameLabel == "le") = true)
  rw [readBucket, if_pos hname, hfind, Option.bind_some, hle, Option.map_some]

theorem float_value {suffix : String} {extra : Option Label} {value : F64} {s : TimeSeries}
    (h : b.float debugStr suffix extra value = .ok s) : s.sample.value = value := by
  obtain ⟨labels, -, rfl⟩ := map_eq_ok.mp h
  rfl

/-- **The classic series read back as the buckets that they were made of.** -/
theorem classicHistogram_read (hb : b.WellNamed) {histogram : Dto.Histogram}
    (h : b.classicHistogram debugStr histogram = .ok series) :
    series.filterMap (readBucket b.name) = cumulativeBuckets histogram := by
  have hfresh : "le" ∉ b.labels.tail.map Label.name := by
    have hle := (classicHistogram_labels h).2
    rw [named_eq hb, List.map_cons, List.mem_cons, not_or] at hle
    exact hle.2
  rw [SeriesBuilder.classicHistogram] at h
  obtain ⟨count, hcount, h⟩ := bind_eq_ok.mp h
  obtain ⟨sum, hsum, h⟩ := bind_eq_ok.mp h
  obtain ⟨buckets, hbuckets, h⟩ := bind_eq_ok.mp h
  have hread : buckets.filterMap (readBucket b.name) =
      histogram.bucket.map fun bucket => (quiet (orZero bucket.upperBound),
        countOf bucket.cumulativeCountFloat bucket.cumulativeCount) := by
    have hmap : buckets.map (readBucket b.name) =
        histogram.bucket.map fun bucket => some (quiet (orZero bucket.upperBound),
          countOf bucket.cumulativeCountFloat bucket.cumulativeCount) :=
      map_of_mapM (fun bucket s hs => by
        rw [readBucket_bucket hb hfresh (float_labels hs).1 (f64FromStr_formatFloat _),
          float_value hs]) hbuckets
    have hsome := congrArg (List.filterMap id) hmap
    rw [List.filterMap_map, List.filterMap_map] at hsome
    simpa using hsome
  have hplain : readBucket b.name count = none ∧ readBucket b.name sum = none :=
    ⟨@readBucket_other b hb .count _ (float_labels hcount).1 (by decide),
      @readBucket_other b hb .sum _ (float_labels hsum).1 (by decide)⟩
  cases hends : endsAtInfinity histogram.bucket with
  | true =>
      rw [hends, if_pos rfl] at h
      cases h
      rw [List.filterMap_cons_none hplain.1, List.filterMap_cons_none hplain.2, hread,
        cumulativeBuckets, hends, if_pos rfl, List.append_nil]
  | false =>
      rw [hends, if_neg Bool.false_ne_true] at h
      obtain ⟨inf, hinf, h⟩ := bind_eq_ok.mp h
      cases h
      have hlast : readBucket b.name inf =
          some (F64.infinity, countOf histogram.sampleCountFloat histogram.sampleCount) := by
        rw [readBucket_bucket hb hfresh (float_labels hinf).1
          (by decide : f64FromStr "+Inf" = some F64.infinity), float_value hinf]
      rw [List.filterMap_cons_none hplain.1, List.filterMap_cons_none hplain.2,
        List.filterMap_append, hread, List.filterMap_cons_some hlast, List.filterMap_nil,
        cumulativeBuckets, hends, if_neg Bool.false_ne_true]

theorem histograms_read (hb : b.WellNamed) {gauge : Bool} {options : ProtobufOptions}
    {histogram : Dto.Histogram} (h : b.histograms debugStr gauge options histogram = .ok series) :
    series.filterMap (readBucket b.name) =
      if emitsClassic options histogram then cumulativeBuckets histogram else [] := by
  rw [SeriesBuilder.histograms] at h
  obtain ⟨natives, hnative, h⟩ := bind_eq_ok.mp h
  obtain ⟨classics, hclassic, h⟩ := bind_eq_ok.mp h
  cases h
  have hnone : natives.filterMap (readBucket b.name) = [] := by
    rw [List.filterMap_eq_nil_iff]
    intro s hs
    have hlabels := nativeSeries_labels hnative
    have hmem := List.mem_map_of_mem (f := TimeSeries.labels) hs
    rw [hlabels, List.mem_map] at hmem
    obtain ⟨kind, hkind, heq⟩ := hmem
    refine readBucket_other hb heq.symm ?_
    split at hkind
    · rw [List.mem_singleton.mp hkind]
      decide
    · cases hkind
  rw [List.filterMap_append, hnone, List.nil_append]
  rw [SeriesBuilder.classicSeries] at hclassic
  rw [emitsClassic, emitsNative]
  split at hclassic
  · next hemits =>
      rw [if_pos hemits]
      exact classicHistogram_read hb hclassic
  · next hemits =>
      cases hclassic
      rw [if_neg hemits]
      rfl

theorem distinctBounds_of_quiet {buckets : List Dto.Bucket}
    (h : ((upperBounds buckets).map quiet).Nodup) : DistinctBounds buckets :=
  ⟨h.of_map _, fun _ hx _ hy heq => List.inj_on_of_nodup_map h hx hy (formatFloat_eq_iff.mp heq)⟩

/-- **The series are told apart exactly when the bounds are**, and no bucket comes after infinity's. -/
theorem histograms_distinct_iff (hb : b.WellNamed) {gauge : Bool} {options : ProtobufOptions}
    {histogram : Dto.Histogram} (h : b.histograms debugStr gauge options histogram = .ok series) :
    BucketsComplete options b.name histogram series ↔
      (emitsClassic options histogram = true →
        ((upperBounds histogram.bucket).map quiet).Nodup ∧
          F64.infinity ∉ (upperBounds histogram.bucket).dropLast) := by
  obtain ⟨hlabels, hle⟩ := histograms_labels h
  cases hemits : emitsClassic options histogram with
  | false =>
      -- At most the native series is there.
      have hkinds : emittedSeries options histogram =
          if emitsNative options histogram then [.native] else [] := by
        rw [emittedSeries, hemits, if_neg Bool.false_ne_true, List.append_nil]
      refine iff_of_true ⟨?_, fun hclassic => by rw [hemits] at hclassic; cases hclassic⟩
        fun hclassic => absurd hclassic Bool.false_ne_true
      refine (distinctLabels_iff hb hlabels fun kind hkind hsuffix => ?_).mpr
        (emittedSeries_nodup_iff.mpr fun hclassic => by rw [hemits] at hclassic; cases hclassic)
      rw [hkinds] at hkind
      split at hkind
      · rw [List.mem_singleton.mp hkind] at hsuffix
        exact absurd hsuffix (by decide)
      · cases hkind
  | true =>
      have hfresh : "le" ∉ b.labels.tail.map Label.name := by
        have hnamed := hle hemits
        rw [named_eq hb, List.map_cons, List.mem_cons, not_or] at hnamed
        exact hnamed.2
      constructor
      · intro hcomplete _
        have hnodup := emittedSeries_nodup_iff.mp
          ((distinctLabels_iff hb hlabels fun _ _ _ => hfresh).mp hcomplete.distinct) hemits
        rw [leValues] at hnodup
        have htexts : ((upperBounds histogram.bucket).map formatFloat).Nodup :=
          (List.nodup_append.mp hnodup).1
        have hquiet : ((upperBounds histogram.bucket).map quiet).Nodup := by
          refine List.Nodup.map_on (fun x hx y hy heq => ?_) (htexts.of_map _)
          exact List.inj_on_of_nodup_map htexts hx hy (formatFloat_eq_iff.mpr heq)
        exact ⟨hquiet,
          (histograms_complete_iff hb h (distinctBounds_of_quiet hquiet)).mp hcomplete hemits⟩
      · intro hbounds
        obtain ⟨hquiet, hinfinity⟩ := hbounds rfl
        exact (histograms_complete_iff hb h (distinctBounds_of_quiet hquiet)).mpr fun _ => hinfinity

end

/-! ## Families -/

/-- What the series of one histogram metric say. -/
structure BucketsRead (options : ProtobufOptions) (name : String) (histogram : Dto.Histogram)
    (series : List TimeSeries) : Prop where
  read : series.filterMap (readBucket name) =
    if emitsClassic options histogram then cumulativeBuckets histogram else []
  complete : BucketsComplete options name histogram series ↔
    (emitsClassic options histogram = true →
      ((upperBounds histogram.bucket).map quiet).Nodup ∧
        F64.infinity ∉ (upperBounds histogram.bucket).dropLast)

/-- **The buckets of every converted histogram read back**: the series of a family are those of its
    metrics; whenever a metric's classic series are emitted, their `le` labels and values say the bounds
    and the cumulative counts that were exposed, closed by infinity if the exposition did not; and the
    series are told apart exactly when the bounds are. -/
theorem convertFamily_reads {debugStr : String → String} {family : Dto.MetricFamily}
    {kind : Dto.MetricType} {defaultTimestampMs : Int64} {options : ProtobufOptions}
    {series : List TimeSeries} (hkind : Dto.MetricType.ofInt32? (family.type.getD 0) = some kind)
    (hhistogram : kind ∈ [.histogram, .gaugeHistogram])
    (h : convertFamily debugStr family defaultTimestampMs options = .ok series) :
    ∃ parts, parts.flatten = series ∧ List.Forall₂ (fun metric part =>
      convertMetric debugStr (family.name.getD "") kind defaultTimestampMs options metric = .ok part ∧
        BucketsRead options (family.name.getD "") metric.histogramOrDefault part)
      family.metric parts := by
  rw [convertFamily] at h
  dsimp only at h
  rw [hkind] at h
  split at h
  · cases h
  split at h
  · cases h
  next hname =>
  obtain ⟨parts, hparts, rfl⟩ := map_eq_ok.mp h
  refine ⟨parts, rfl, (mapM_eq_ok.mp hparts).imp fun metric part hpart => ⟨hpart, ?_⟩⟩
  rw [convertMetric] at hpart
  obtain ⟨labels, hlabels, hpart⟩ := bind_eq_ok.mp hpart
  obtain ⟨hnamed, hhead, -, -⟩ := baseLabels_spec (by simpa using hname) hlabels
  have hb : SeriesBuilder.WellNamed
      ⟨family.name.getD "", labels, metricTimestamp metric defaultTimestampMs options⟩ :=
    ⟨hnamed, hhead⟩
  rcases List.mem_cons.mp hhistogram with rfl | hgauge
  · exact ⟨histograms_read hb hpart, histograms_distinct_iff hb hpart⟩
  · cases List.mem_singleton.mp hgauge
    exact ⟨histograms_read hb hpart, histograms_distinct_iff hb hpart⟩

/-- Buckets with bounds of 0.1 and a million. -/
theorem convertFamily_reads_tenth : ∃ series,
    convertFamily id (boundsFamily [⟨0x3fb999999999999a⟩, ⟨0x412e848000000000⟩]) 0 floatOptions =
        .ok series ∧
      series.filterMap (readBucket "m") = [(⟨0x3fb999999999999a⟩, F64.zero),
        (⟨0x412e848000000000⟩, F64.zero), (F64.infinity, F64.zero)] := by
  obtain ⟨series, hseries, -⟩ := exists_ok_of_any
    (x := convertFamily id (boundsFamily [⟨0x3fb999999999999a⟩, ⟨0x412e848000000000⟩]) 0
      floatOptions)
    (p := fun series => !series.isEmpty) (by decide +kernel)
  have hkind : Dto.MetricType.ofInt32?
      ((boundsFamily [⟨0x3fb999999999999a⟩, ⟨0x412e848000000000⟩]).type.getD 0) =
        some .histogram := by decide
  obtain ⟨parts, hflatten, hparts⟩ := convertFamily_reads hkind (by decide) hseries
  obtain ⟨part, rest, hpart, hrest, rfl⟩ := List.forall₂_cons_left_iff.mp hparts
  rw [List.forall₂_nil_left_iff.mp hrest, List.flatten_cons, List.flatten_nil,
    List.append_nil] at hflatten
  refine ⟨series, hseries, ?_⟩
  rw [← hflatten]
  exact hpart.2.read

end PromScrape
