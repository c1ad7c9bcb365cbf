import PromScrape.Library.Fallible
import PromScrape.Implementation.Protobuf

set_option autoImplicit false

/-! # Where the series of a protobuf body come from

A body that parses is a list of families, each metric of which converts to series of its own. A
metric's builder makes them in three ways only (`SeriesBuilder.Makes`), so what holds of every series
is shown for these. -/

namespace PromScrape

open Fallible

/-! ## One metric -/

/-- The histogram of a metric, or the empty one. -/
def Dto.Metric.histogramOrDefault (metric : Dto.Metric) : Dto.Histogram :=
  metric.histogram.getD Dto.Histogram.default

/-- Whether the series of a metric include some with a label of their own, `le` or `quantile`. -/
def derivesLabel (kind : Dto.MetricType) (options : ProtobufOptions) (metric : Dto.Metric) : Bool :=
  match kind with
  | .counter | .gauge | .untyped => false
  | .summary => !(metric.summary.getD Dto.Summary.default).quantile.isEmpty
  | .histogram | .gaugeHistogram =>
      !(options.nativeHistograms && isNative metric.histogramOrDefault) ||
        (options.classicHistograms && !metric.histogramOrDefault.bucket.isEmpty)

/-- How a builder makes a series: a native histogram, a float series, or a float series with a
    derived label, if there are any. -/
inductive SeriesBuilder.Makes (b : SeriesBuilder) (debugStr : String → String) (derives : Bool) :
    TimeSeries → Prop where
  | native (histogram : Histogram) : Makes b debugStr derives (b.histogram histogram)
  | plain {suffix : String} {value : F64} {s : TimeSeries} (hsuffix : suffix ∈ ["", "_count", "_sum"])
      (h : b.float debugStr suffix none value = .ok s) : Makes b debugStr derives s
  | derived {suffix : String} {extra : Label} {value : F64} {s : TimeSeries} (hderives : derives = true)
      (hextra : (suffix, extra.name) ∈ [("", "quantile"), ("_bucket", "le")])
      (h : b.float debugStr suffix (some extra) value = .ok s) : Makes b debugStr derives s

/-- Every series is made by the builder, and if labels are derived, one of them has one. -/
structure SeriesBuilder.MakesAll (b : SeriesBuilder) (debugStr : String → String) (derives : Bool)
    (series : List TimeSeries) : Prop where
  makes : ∀ s ∈ series, b.Makes debugStr derives s
  derived : derives = true → ∃ s ∈ series, ∃ (suffix : String) (extra : Label) (value : F64),
    b.float debugStr suffix (some extra) value = .ok s

section

variable {b : SeriesBuilder} {debugStr : String → String} {series : List TimeSeries}

theorem single_makes {value : F64}
    (h : (b.float debugStr "" none value).map ([·]) = .ok series) :
    b.MakesAll debugStr false series := by
  obtain ⟨s, hs, rfl⟩ := map_eq_ok.mp h
  refine ⟨List.forall_mem_singleton.mpr (.plain (by simp) hs), ?_⟩
  intro hderives
  cases hderives

/-- Series with derived labels, one for each element of a list. -/
theorem derived_makes {α : Type} {suffix : String} {extra : α → Label} {value : α → F64} {l : List α}
    (hextra : ∀ a, (suffix, (extra a).name) ∈ [("", "quantile"), ("_bucket", "le")])
    (h : l.mapM (fun a => b.float debugStr suffix (some (extra a)) (value a)) = .ok series) :
    (∀ s ∈ series, b.Makes debugStr true s) ∧ (l ≠ [] → ∃ s ∈ series, ∃ a,
      b.float debugStr suffix (some (extra a)) (value a) = .ok s) := by
  refine ⟨forall_of_mapM (fun a s hs => .derived rfl (hextra a) hs) h, ?_⟩
  intro hne
  cases mapM_eq_ok.mp h with
  | nil => exact absurd rfl hne
  | cons hfirst _ => exact ⟨_, List.mem_cons_self, _, hfirst⟩

theorem summary_makes {summary : Dto.Summary}
    (h : b.summary debugStr summary = .ok series) :
    b.MakesAll debugStr (!summary.quantile.isEmpty) series := by
  rw [SeriesBuilder.summary] at h
  obtain ⟨count, hcount, h⟩ := bind_eq_ok.mp h
  obtain ⟨sum, hsum, h⟩ := bind_eq_ok.mp h
  obtain ⟨quantiles, hquantiles, h⟩ := bind_eq_ok.mp h
  cases h
  have hbase : ∀ derives, b.Makes debugStr derives count ∧ b.Makes debugStr derives sum :=
    fun _ => ⟨.plain (by simp) hcount, .plain (by simp) hsum⟩
  cases hempty : summary.quantile with
  | nil =>
      rw [hempty] at hquantiles
      cases hquantiles
      refine ⟨?_, fun hderives => by cases hderives⟩
      exact List.forall_mem_cons.mpr ⟨(hbase _).1, List.forall_mem_singleton.mpr (hbase _).2⟩
  | cons q rest =>
      rw [hempty] at hquantiles
      obtain ⟨hmakes, hderived⟩ := derived_makes (fun _ => by simp) hquantiles
      obtain ⟨s, hs, q, hfloat⟩ := hderived (List.cons_ne_nil _ _)
      refine ⟨List.forall_mem_cons.mpr ⟨(hbase _).1, List.forall_mem_cons.mpr ⟨(hbase _).2, hmakes⟩⟩,
        fun _ => ?_⟩
      exact ⟨s, List.mem_cons_of_mem _ (List.mem_cons_of_mem _ hs), _, _, _, hfloat⟩

/-- The classic series always include one with `le`. -/
theorem classicHistogram_makes {histogram : Dto.Histogram}
    (h : b.classicHistogram debugStr histogram = .ok series) :
    b.MakesAll debugStr true series := by
  rw [SeriesBuilder.classicHistogram] at h
  obtain ⟨count, hcount, h⟩ := bind_eq_ok.mp h
  obtain ⟨sum, hsum, h⟩ := bind_eq_ok.mp h
  obtain ⟨buckets, hbuckets, h⟩ := bind_eq_ok.mp h
  obtain ⟨hmakes, hderived⟩ := derived_makes (fun _ => by simp) hbuckets
  have hbase : ∀ s ∈ [count, sum], b.Makes debugStr true s := by
    refine List.forall_mem_cons.mpr ⟨.plain (by simp) hcount, ?_⟩
    exact List.forall_mem_singleton.mpr (.plain (by simp) hsum)
  split at h
  · next hinf =>
      cases h
      have hne : histogram.bucket ≠ [] := by
        intro hempty
        rw [hempty] at hinf
        cases hinf
      obtain ⟨s, hs, bucket, hfloat⟩ := hderived hne
      refine ⟨List.forall_mem_append.mpr ⟨hbase, hmakes⟩, fun _ => ?_⟩
      exact ⟨s, List.mem_append_right [count, sum] hs, _, _, _, hfloat⟩
  · obtain ⟨inf, hinf, h⟩ := bind_eq_ok.mp h
    cases h
    have hlast : ∀ s ∈ [inf], b.Makes debugStr true s :=
      List.forall_mem_singleton.mpr (.derived rfl (by simp) hinf)
    refine ⟨List.forall_mem_append.mpr ⟨hbase, List.forall_mem_append.mpr ⟨hmakes, hlast⟩⟩,
      fun _ => ?_⟩
    exact ⟨inf, List.mem_append_right [count, sum] (List.mem_append_right _ (by simp)), _, _, _, hinf⟩

theorem histograms_makes {gauge : Bool} {options : ProtobufOptions} {histogram : Dto.Histogram}
    (h : b.histograms debugStr gauge options histogram = .ok series) :
    b.MakesAll debugStr (!(options.nativeHistograms && isNative histogram) ||
      (options.classicHistograms && !histogram.bucket.isEmpty)) series := by
  rw [SeriesBuilder.histograms] at h
  obtain ⟨nativeSeries, hnative, h⟩ := bind_eq_ok.mp h
  obtain ⟨classicSeries, hclassic, h⟩ := bind_eq_ok.mp h
  cases h
  have hnatives : ∀ derives, ∀ s ∈ nativeSeries, b.Makes debugStr derives s := by
    intro derives s hs
    rw [SeriesBuilder.nativeSeries] at hnative
    split at hnative
    · obtain ⟨converted, -, rfl⟩ := map_eq_ok.mp hnative
      rw [List.mem_singleton.mp hs]
      exact .native converted
    · cases hnative
      cases hs
  rw [SeriesBuilder.classicSeries] at hclassic
  split at hclassic
  · next hclassical =>
      obtain ⟨hmakes, hderived⟩ := classicHistogram_makes hclassic
      rw [hclassical]
      refine ⟨List.forall_mem_append.mpr ⟨hnatives true, hmakes⟩, fun hderives => ?_⟩
      obtain ⟨s, hs, hfloat⟩ := hderived hderives
      exact ⟨s, List.mem_append_right _ hs, hfloat⟩
  · next hclassical =>
      cases hclassic
      rw [Bool.eq_false_of_not_eq_true hclassical, List.append_nil]
      exact ⟨hnatives false, fun hderives => by cases hderives⟩

/-- **The series of a metric.** -/
theorem metric_makes {kind : Dto.MetricType} {options : ProtobufOptions} {metric : Dto.Metric}
    (h : b.metric debugStr kind options metric = .ok series) :
    b.MakesAll debugStr (derivesLabel kind options metric) series := by
  rw [SeriesBuilder.metric.eq_def] at h
  cases kind with
  | counter => exact single_makes h
  | gauge => exact single_makes h
  | untyped => exact single_makes h
  | summary => exact summary_makes h
  | histogram => exact histograms_makes h
  | gaugeHistogram => exact histograms_makes h

end

/-! ## All metrics -/

/-- The families that `parseFamilies` decodes. -/
def decodeFamilies (prost : ProstDecoder) : Nat → List UInt8 → List Dto.MetricFamily
  | 0, _ => []
  | n + 1, rest =>
      if rest.isEmpty then []
      else
        match prost.decode rest with
        | .error _ => []
        | .ok (family, rest) => family :: decodeFamilies prost n rest

/-- The families of a body. -/
def familiesOf (prost : ProstDecoder) (body : List UInt8) : List Dto.MetricFamily :=
  decodeFamilies prost body.length body

/-- The builder of a metric's series. -/
def builderOf (name : String) (labels : List Label) (metric : Dto.Metric)
    (defaultTimestampMs : Int64) (options : ProtobufOptions) : SeriesBuilder where
  name := name
  labels := labels
  timestamp := metricTimestamp metric defaultTimestampMs options

/-- A metric of a family converts to `series`. -/
def Converts (debugStr : String → String) (defaultTimestampMs : Int64) (options : ProtobufOptions)
    (family : Dto.MetricFamily) (metric : Dto.Metric) (series : List TimeSeries) : Prop :=
  ∃ kind labels, isValidName (family.name.getD "") true = true ∧
    Dto.MetricType.ofInt32? (family.type.getD 0) = some kind ∧
    baseLabels debugStr (family.name.getD "") metric.label = .ok labels ∧
    (builderOf (family.name.getD "") labels metric defaultTimestampMs options).metric debugStr kind
      options metric = .ok series

/-- What a successful conversion of several metrics gives: all of them convert, and nothing else is
    in the result. -/
structure ConvertsAll (debugStr : String → String) (defaultTimestampMs : Int64)
    (options : ProtobufOptions) (families : List Dto.MetricFamily) (series : List TimeSeries) :
    Prop where
  converts : ∀ family ∈ families, ∀ metric ∈ family.metric, ∃ ms,
    Converts debugStr defaultTimestampMs options family metric ms ∧ ∀ s ∈ ms, s ∈ series
  source : ∀ s ∈ series, ∃ family ∈ families, ∃ metric ∈ family.metric, ∃ ms,
    Converts debugStr defaultTimestampMs options family metric ms ∧ s ∈ ms

theorem convertFamily_converts {debugStr : String → String} {family : Dto.MetricFamily}
    {defaultTimestampMs : Int64} {options : ProtobufOptions} {series : List TimeSeries}
    (h : convertFamily debugStr family defaultTimestampMs options = .ok series) :
    ConvertsAll debugStr defaultTimestampMs options [family] series := by
  rw [convertFamily] at h
  dsimp only at h
  split at h
  · cases h
  split at h
  · cases h
  · next hname =>
      split at h
      · cases h
      · next kind hkind =>
          obtain ⟨seriess, hmetrics, rfl⟩ := map_eq_ok.mp h
          have hconverts : ∀ {metric ms}, convertMetric debugStr (family.name.getD "") kind
              defaultTimestampMs options metric = .ok ms →
              Converts debugStr defaultTimestampMs options family metric ms := by
            intro metric ms hms
            rw [convertMetric] at hms
            obtain ⟨labels, hlabels, hms⟩ := bind_eq_ok.mp hms
            exact ⟨kind, labels, by simpa using hname, hkind, hlabels, hms⟩
          obtain ⟨hforth, hback⟩ := mem_flatten_of_mapM hmetrics
          refine ⟨List.forall_mem_singleton.mpr fun metric hmetric => ?_, fun s hs => ?_⟩
          · obtain ⟨ms, hms, hmem⟩ := hforth metric hmetric
            exact ⟨ms, hconverts hms, hmem⟩
          · obtain ⟨metric, hmetric, ms, hms, hs⟩ := hback s hs
            exact ⟨family, List.mem_singleton_self _, metric, hmetric, ms, hconverts hms, hs⟩

theorem ConvertsAll.append {debugStr : String → String} {defaultTimestampMs : Int64}
    {options : ProtobufOptions} {families families' : List Dto.MetricFamily}
    {series series' : List TimeSeries}
    (h : ConvertsAll debugStr defaultTimestampMs options families series)
    (h' : ConvertsAll debugStr defaultTimestampMs options families' series') :
    ConvertsAll debugStr defaultTimestampMs options (families ++ families') (series ++ series') := by
  constructor
  · intro family hfamily metric hmetric
    rcases List.mem_append.mp hfamily with hfamily | hfamily
    · obtain ⟨ms, hms, hmem⟩ := h.converts family hfamily metric hmetric
      exact ⟨ms, hms, fun s hs => List.mem_append_left _ (hmem s hs)⟩
    · obtain ⟨ms, hms, hmem⟩ := h'.converts family hfamily metric hmetric
      exact ⟨ms, hms, fun s hs => List.mem_append_right _ (hmem s hs)⟩
  · intro s hs
    rcases List.mem_append.mp hs with hs | hs
    · obtain ⟨family, hfamily, hsource⟩ := h.source s hs
      exact ⟨family, List.mem_append_left _ hfamily, hsource⟩
    · obtain ⟨family, hfamily, hsource⟩ := h'.source s hs
      exact ⟨family, List.mem_append_right _ hfamily, hsource⟩

theorem parseFamilies_converts {prost : ProstDecoder} {defaultTimestampMs : Int64}
    {options : ProtobufOptions} (n : Nat) :
    ∀ {index : Nat} {rest : List UInt8} {series : List TimeSeries},
      parseFamilies prost defaultTimestampMs options n index rest = .ok series →
      ConvertsAll prost.debugStr defaultTimestampMs options (decodeFamilies prost n rest) series := by
  induction n with
  | zero =>
      intro index rest series h
      cases h
      exact ⟨nofun, nofun⟩
  | succ n ih =>
      intro index rest series h
      rw [parseFamilies] at h
      rw [decodeFamilies]
      split at h
      · next hempty =>
          cases h
          rw [if_pos hempty]
          exact ⟨nofun, nofun⟩
      · next hempty =>
          rw [if_neg hempty]
          cases hdecode : prost.decode rest with
          | error err =>
              rw [hdecode] at h
              cases h
          | ok decoded =>
              rw [hdecode] at h
              cases hfirst : convertFamily prost.debugStr decoded.1 defaultTimestampMs options with
              | error message =>
                  simp only [hfirst] at h
                  cases h
              | ok first =>
                  simp only [hfirst] at h
                  obtain ⟨later, hlater, rfl⟩ := map_eq_ok.mp h
                  exact (convertFamily_converts hfirst).append (ih hlater)

/-- **The series of a body are those of its metrics.** -/
theorem parseProtobuf_converts {prost : ProstDecoder} {body : List UInt8}
    {defaultTimestampMs : Int64} {options : ProtobufOptions} {series : List TimeSeries}
    (h : parseProtobuf prost body defaultTimestampMs options = .ok series) :
    ConvertsAll prost.debugStr defaultTimestampMs options (familiesOf prost body) series :=
  parseFamilies_converts body.length h

end PromScrape
