import PromScrape.Proofs.ProtobufLabels

set_option autoImplicit false

/-! # The series of a histogram metric

A histogram metric has a native series, or classic ones, or both. A classic histogram must have one
bucket for `+Inf`. Expositions may leave it out, and whether they do is read off the last bucket
alone: an exposed `+Inf` bucket in another place is emitted twice. -/

namespace PromScrape

open Fallible

/-! ## Bounds -/

/-- The upper bounds of the exposed buckets, a missing one counting as 0. -/
def upperBounds (buckets : List Dto.Bucket) : List F64 := buckets.map fun b => orZero b.upperBound

theorem bits_eq_of_and {bits : UInt64} (hle : bits ≤ F64.infinity.bits)
    (h : bits &&& 0x7fffffffffffffff = F64.infinity.bits) : bits = F64.infinity.bits := by
  have hnat : (bits &&& 0x7fffffffffffffff).toNat = bits.toNat := by
    rw [UInt64.toNat_and]
    show bits.toNat &&& (2 ^ 63 - 1) = bits.toNat
    rw [Nat.and_two_pow_sub_one_eq_mod]
    refine Nat.mod_eq_of_lt (Nat.lt_of_le_of_lt (UInt64.le_iff_toNat_le.mp hle) ?_)
    decide
  rw [← h]
  exact (UInt64.toNat_inj.mp hnat).symm

/-- The text of a finite value has a point or an exponent. -/
theorem pointed_ne_inf (text : List Char) :
    String.ofList (if text.any (fun c => c == '.' || c == 'e' || c == 'E') then text
      else text ++ ['.', '0']) ≠ "+Inf" := by
  intro h
  have hlist := congrArg String.toList h
  rw [String.toList_ofList] at hlist
  split at hlist
  · next hany =>
      rw [hlist] at hany
      exact absurd hany (by decide)
  · have hpoint : '.' ∈ "+Inf".toList := by
      rw [← hlist]
      simp
    exact absurd hpoint (by decide)

/-- Only infinity is written `+Inf`. -/
theorem formatFloat_eq_inf_iff {x : F64} : formatFloat x = "+Inf" ↔ x = F64.infinity := by
  constructor
  · intro h
    rw [formatFloat] at h
    dsimp only at h
    split at h
    · exact absurd h (by decide)
    · split at h
      · next hmagnitude =>
          split at h
          · next hpositive =>
              rw [isPositive, Bool.and_eq_true, decide_eq_true_eq, decide_eq_true_eq] at hpositive
              have hbits := bits_eq_of_and hpositive.2 hmagnitude
              cases x
              exact congrArg F64.mk hbits
          · exact absurd h (by decide)
      · exact absurd h (pointed_ne_inf _)
  · rintro rfl
    decide +kernel

/-- The `le` labels of the classic series, in order. -/
def leValues (buckets : List Dto.Bucket) : List String :=
  (upperBounds buckets).map formatFloat ++ if endsAtInfinity buckets then [] else ["+Inf"]

theorem endsAtInfinity_iff (buckets : List Dto.Bucket) :
    endsAtInfinity buckets = true ↔ (upperBounds buckets).getLast? = some F64.infinity := by
  rw [endsAtInfinity, upperBounds, List.getLast?_map]
  cases buckets.getLast? with
  | none => simp
  | some bucket =>
      rw [Option.map_some, Option.some.injEq, beq_iff_eq]
      cases bucket.upperBound with
      | none => exact iff_of_false nofun (by decide)
      | some bound => rw [Option.some.injEq, orZero, Option.getD_some]

/-- The `le` labels are distinct and one is `+Inf` exactly when no exposed `+Inf` bucket comes before
another bucket. -/
theorem leValues_iff {buckets : List Dto.Bucket} (hbounds : (upperBounds buckets).Nodup)
    (hformat : ∀ x ∈ upperBounds buckets, ∀ y ∈ upperBounds buckets,
      formatFloat x = formatFloat y → x = y) :
    ((leValues buckets).Nodup ∧ (leValues buckets).count "+Inf" = 1) ↔
      F64.infinity ∉ (upperBounds buckets).dropLast := by
  have hnodup : ((upperBounds buckets).map formatFloat).Nodup := hbounds.map_on hformat
  have hmem : "+Inf" ∈ (upperBounds buckets).map formatFloat ↔
      F64.infinity ∈ upperBounds buckets := by
    rw [List.mem_map]
    constructor
    · rintro ⟨x, hx, hinf⟩
      rwa [← formatFloat_eq_inf_iff.mp hinf]
    · intro h
      exact ⟨F64.infinity, h, formatFloat_eq_inf_iff.mpr rfl⟩
  cases hlast : endsAtInfinity buckets with
  | true =>
      -- the exposed `+Inf` bucket is the last one
      have hinit := List.dropLast_append_getLast? _ ((endsAtInfinity_iff buckets).mp hlast)
      have hinf : F64.infinity ∈ upperBounds buckets := by
        rw [← hinit]
        exact List.mem_append_right _ (List.mem_singleton_self _)
      have hle : leValues buckets = (upperBounds buckets).map formatFloat := by
        rw [leValues, hlast, if_pos rfl, List.append_nil]
      rw [hle]
      refine iff_of_true ⟨hnodup, List.count_eq_one_of_mem hnodup (hmem.mpr hinf)⟩ ?_
      rw [← hinit, List.nodup_append] at hbounds
      intro h
      exact hbounds.2.2 _ h _ (List.mem_singleton_self _) rfl
  | false =>
      -- `+Inf` is appended, so it must not have been exposed
      have hle : leValues buckets = (upperBounds buckets).map formatFloat ++ ["+Inf"] := by
        rw [leValues, hlast, if_neg Bool.false_ne_true]
      have hdrop : F64.infinity ∈ upperBounds buckets ↔
          F64.infinity ∈ (upperBounds buckets).dropLast := by
        refine ⟨fun h => List.mem_dropLast_of_mem_of_ne_getLast? h fun hend => ?_,
          List.mem_of_mem_dropLast⟩
        rw [(endsAtInfinity_iff buckets).mpr hend.symm] at hlast
        cases hlast
      rw [hle, ← hdrop, ← hmem]
      constructor
      · rintro ⟨h, -⟩
        exact fun hinf => (List.nodup_append.mp h).2.2 _ hinf _ (List.mem_singleton_self _) rfl
      · intro h
        constructor
        · rw [List.nodup_append]
          refine ⟨hnodup, List.nodup_singleton _, fun x hx y hy heq => h ?_⟩
          rwa [← List.mem_singleton.mp hy, ← heq]
        · rw [List.count_append, List.count_eq_zero_of_not_mem h]
          rfl

/-! ## Series -/

/-- What a series of a histogram metric is. -/
inductive HistogramSeries where
  | native
  | count
  | sum
  | bucket (le : String)
deriving DecidableEq

/-- The suffix of the metric name. -/
def HistogramSeries.suffix : HistogramSeries → String
  | .native => ""
  | .count => "_count"
  | .sum => "_sum"
  | .bucket _ => "_bucket"

/-- The derived label, if there is one. -/
def HistogramSeries.derived : HistogramSeries → List Label
  | .bucket le => [⟨"le", le⟩]
  | _ => []

/-- Whether a histogram metric has a native series. -/
def emitsNative (options : ProtobufOptions) (histogram : Dto.Histogram) : Bool :=
  options.nativeHistograms && isNative histogram

/-- Whether a histogram metric has classic series. -/
def emitsClassic (options : ProtobufOptions) (histogram : Dto.Histogram) : Bool :=
  !emitsNative options histogram || (options.classicHistograms && !histogram.bucket.isEmpty)

/-- The series of a histogram metric, in order. -/
def emittedSeries (options : ProtobufOptions) (histogram : Dto.Histogram) : List HistogramSeries :=
  (if emitsNative options histogram then [.native] else []) ++
    if emitsClassic options histogram then
      .count :: .sum :: (leValues histogram.bucket).map .bucket
    else []

/-- The labels of one of the series. -/
def SeriesBuilder.labelsOf (b : SeriesBuilder) (kind : HistogramSeries) : List Label :=
  b.named kind.suffix ++ kind.derived

section

variable {b : SeriesBuilder} {debugStr : String → String} {series : List TimeSeries}

theorem nativeSeries_labels {gauge : Bool} {options : ProtobufOptions} {histogram : Dto.Histogram}
    (h : b.nativeSeries gauge options histogram = .ok series) :
    series.map TimeSeries.labels =
      (if emitsNative options histogram then [HistogramSeries.native] else []).map b.labelsOf := by
  rw [SeriesBuilder.nativeSeries] at h
  rw [emitsNative]
  split at h
  · next hnative =>
      obtain ⟨converted, -, rfl⟩ := map_eq_ok.mp h
      rw [hnative, if_pos rfl, List.map_singleton, List.map_singleton]
      exact congrArg ([·]) (List.append_nil b.labels).symm
  · next hnative =>
      cases h
      rw [if_neg hnative]
      rfl

/-- The labels of the classic series; none of the exposed ones is `le`. -/
theorem classicHistogram_labels {histogram : Dto.Histogram}
    (h : b.classicHistogram debugStr histogram = .ok series) :
    series.map TimeSeries.labels = b.labelsOf .count :: b.labelsOf .sum ::
        (leValues histogram.bucket).map (fun le => b.labelsOf (.bucket le)) ∧
      "le" ∉ (b.named "_bucket").map Label.name := by
  rw [SeriesBuilder.classicHistogram] at h
  obtain ⟨count, hcount, h⟩ := bind_eq_ok.mp h
  obtain ⟨sum, hsum, h⟩ := bind_eq_ok.mp h
  obtain ⟨buckets, hbuckets, h⟩ := bind_eq_ok.mp h
  have hlabels : buckets.map TimeSeries.labels =
      ((upperBounds histogram.bucket).map formatFloat).map fun le => b.labelsOf (.bucket le) := by
    rw [upperBounds, List.map_map, List.map_map]
    exact map_of_mapM (fun bucket s hs => (float_labels hs).1) hbuckets
  have hbase : count.labels = b.labelsOf .count ∧ sum.labels = b.labelsOf .sum :=
    ⟨(float_labels hcount).1, (float_labels hsum).1⟩
  cases hends : endsAtInfinity histogram.bucket with
  | true =>
      rw [hends, if_pos rfl] at h
      cases h
      have hle : leValues histogram.bucket = (upperBounds histogram.bucket).map formatFloat := by
        rw [leValues, hends, if_pos rfl, List.append_nil]
      obtain ⟨bucket, hbucket⟩ : ∃ bucket, bucket ∈ histogram.bucket := by
        refine List.exists_mem_of_ne_nil _ fun hempty => ?_
        rw [hempty] at hends
        cases hends
      obtain ⟨s, hs⟩ := exists_mapM_iff.mp ⟨buckets, hbuckets⟩ bucket hbucket
      refine ⟨?_, (float_labels hs).2 _ rfl⟩
      rw [hle, List.map_cons, List.map_cons, hbase.1, hbase.2, hlabels]
  | false =>
      rw [hends, if_neg Bool.false_ne_true] at h
      obtain ⟨inf, hinf, h⟩ := bind_eq_ok.mp h
      cases h
      have hle : leValues histogram.bucket =
          (upperBounds histogram.bucket).map formatFloat ++ ["+Inf"] := by
        rw [leValues, hends, if_neg Bool.false_ne_true]
      refine ⟨?_, (float_labels hinf).2 _ rfl⟩
      have hlast : [inf].map TimeSeries.labels =
          ["+Inf"].map fun le => b.labelsOf (.bucket le) := congrArg ([·]) (float_labels hinf).1
      rw [hle, List.map_cons, List.map_cons, hbase.1, hbase.2, List.map_append, hlabels, hlast,
        List.map_append]

theorem histograms_labels {gauge : Bool} {options : ProtobufOptions} {histogram : Dto.Histogram}
    (h : b.histograms debugStr gauge options histogram = .ok series) :
    series.map TimeSeries.labels = (emittedSeries options histogram).map b.labelsOf ∧
      (emitsClassic options histogram = true → "le" ∉ (b.named "_bucket").map Label.name) := by
  rw [SeriesBuilder.histograms] at h
  obtain ⟨natives, hnative, h⟩ := bind_eq_ok.mp h
  obtain ⟨classics, hclassic, h⟩ := bind_eq_ok.mp h
  cases h
  rw [List.map_append, nativeSeries_labels hnative, emittedSeries, List.map_append]
  rw [SeriesBuilder.classicSeries] at hclassic
  cases hemits : emitsClassic options histogram with
  | true =>
      rw [emitsClassic, emitsNative] at hemits
      rw [hemits, if_pos rfl] at hclassic
      obtain ⟨hlabels, hle⟩ := classicHistogram_labels hclassic
      rw [if_pos rfl, hlabels, List.map_cons, List.map_cons, List.map_map]
      exact ⟨rfl, fun _ => hle⟩
  | false =>
      rw [emitsClassic, emitsNative] at hemits
      rw [hemits, if_neg Bool.false_ne_true] at hclassic
      cases hclassic
      exact ⟨rfl, fun h => absurd h Bool.false_ne_true⟩

end

/-! ## Label sets -/

/-- The label sets of two series are the same. -/
def SameLabels (s t : TimeSeries) : Prop := ∀ l, l ∈ s.labels ↔ l ∈ t.labels

section

variable {b : SeriesBuilder}

theorem named_eq (h : b.WellNamed) (suffix : String) :
    b.named suffix = ⟨metricNameLabel, b.name ++ suffix⟩ :: b.labels.tail := by
  have hlabels : b.labels = ⟨metricNameLabel, b.name⟩ :: b.labels.tail :=
    (List.cons_head?_tail h.head).symm
  rw [SeriesBuilder.named]
  split
  · next hempty =>
      rw [String.isEmpty_iff.mp hempty, String.append_empty]
      exact hlabels
  · rw [hlabels]
    rfl

theorem mem_labelsOf (h : b.WellNamed) {kind : HistogramSeries} {l : Label} :
    l ∈ b.labelsOf kind ↔
      l = ⟨metricNameLabel, b.name ++ kind.suffix⟩ ∨ l ∈ b.labels.tail ∨ l ∈ kind.derived := by
  rw [SeriesBuilder.labelsOf, named_eq h, List.cons_append, List.mem_cons, List.mem_append]

/-- The metric name of a series tells its suffix. -/
theorem suffix_of_mem (h : b.WellNamed) {kind : HistogramSeries} {suffix : String}
    (hmem : ⟨metricNameLabel, b.name ++ suffix⟩ ∈ b.labelsOf kind) : suffix = kind.suffix := by
  rcases (mem_labelsOf h).mp hmem with hname | htail | hderived
  · have hlist := congrArg (fun l => String.toList l.value) hname
    rw [String.toList_append, String.toList_append] at hlist
    exact String.toList_inj.mp (List.append_cancel_left hlist)
  · -- only the first label is called `__name__`
    have hunique : UniqueNames (⟨metricNameLabel, b.name⟩ :: b.labels.tail) := by
      rw [List.cons_head?_tail h.head]
      exact h.labels.unique
    exact absurd (List.mem_map_of_mem htail) (Keyed.unique_cons.mp hunique).1
  · have hle : metricNameLabel = "le" := by
      cases kind with
      | bucket le => exact congrArg Label.name (List.mem_singleton.mp hderived)
      | native => cases hderived
      | count => cases hderived
      | sum => cases hderived
    exact absurd hle (by decide)

/-- The `le` label of a bucket series tells its bucket. -/
theorem bucket_of_mem (h : b.WellNamed) (hfresh : "le" ∉ b.labels.tail.map Label.name)
    {le le' : String} (hmem : ⟨"le", le⟩ ∈ b.labelsOf (.bucket le')) : le = le' := by
  rcases (mem_labelsOf h).mp hmem with hname | htail | hderived
  · have hmetric : "le" = metricNameLabel := congrArg Label.name hname
    exact absurd hmetric (by decide)
  · exact absurd (List.mem_map_of_mem htail) hfresh
  · exact congrArg Label.value (List.mem_singleton.mp hderived)

theorem bucket_of_suffix {kind : HistogramSeries} (h : kind.suffix = "_bucket") :
    ∃ le, kind = .bucket le := by
  cases kind with
  | bucket le => exact ⟨le, rfl⟩
  | native => exact absurd h (by decide)
  | count => exact absurd h (by decide)
  | sum => exact absurd h (by decide)

theorem eq_or_suffix_eq {kind kind' : HistogramSeries} (h : kind.suffix = kind'.suffix) :
    kind = kind' ∨ kind.suffix = "_bucket" := by
  cases kind <;> cases kind' <;> simp [HistogramSeries.suffix] at h ⊢

theorem labelsOf_injective (h : b.WellNamed) {kind kind' : HistogramSeries}
    (hfresh : kind.suffix = "_bucket" → "le" ∉ b.labels.tail.map Label.name)
    (hsame : ∀ l, l ∈ b.labelsOf kind ↔ l ∈ b.labelsOf kind') : kind = kind' := by
  have hsuffix : kind.suffix = kind'.suffix :=
    suffix_of_mem h ((hsame _).mp ((mem_labelsOf h).mpr (.inl rfl)))
  rcases eq_or_suffix_eq hsuffix with heq | hbucket
  · exact heq
  · obtain ⟨le, rfl⟩ := bucket_of_suffix hbucket
    obtain ⟨le', rfl⟩ := bucket_of_suffix (hsuffix ▸ hbucket)
    have hle : ⟨"le", le⟩ ∈ b.labelsOf (.bucket le) :=
      (mem_labelsOf h).mpr (.inr (.inr (List.mem_singleton_self _)))
    rw [bucket_of_mem h (hfresh rfl) ((hsame _).mp hle)]

/-- The label sets of the series are pairwise distinct. -/
def DistinctLabels (series : List TimeSeries) : Prop :=
  series.Pairwise fun s t => ¬ SameLabels s t

/-- The `_bucket` series of a family with `le="+Inf"`. -/
def isInfinityBucket (name : String) (s : TimeSeries) : Bool :=
  s.labels.contains ⟨metricNameLabel, name ++ "_bucket"⟩ && s.labels.contains ⟨"le", "+Inf"⟩

theorem isInfinityBucket_iff (h : b.WellNamed) {kind : HistogramSeries} {s : TimeSeries}
    (hlabels : s.labels = b.labelsOf kind)
    (hfresh : kind.suffix = "_bucket" → "le" ∉ b.labels.tail.map Label.name) :
    isInfinityBucket b.name s = true ↔ kind = .bucket "+Inf" := by
  rw [isInfinityBucket, Bool.and_eq_true, List.contains_iff_mem, List.contains_iff_mem, hlabels]
  constructor
  · rintro ⟨hname, hle⟩
    obtain ⟨le, rfl⟩ := bucket_of_suffix (suffix_of_mem h hname).symm
    rw [bucket_of_mem h (hfresh rfl) hle]
  · rintro rfl
    exact ⟨(mem_labelsOf h).mpr (.inl rfl),
      (mem_labelsOf h).mpr (.inr (.inr (List.mem_singleton_self _)))⟩

/-- The label sets are told apart exactly when the series are. -/
theorem distinctLabels_iff (h : b.WellNamed) {kinds : List HistogramSeries}
    {series : List TimeSeries} (hlabels : series.map TimeSeries.labels = kinds.map b.labelsOf)
    (hfresh : ∀ kind ∈ kinds, kind.suffix = "_bucket" → "le" ∉ b.labels.tail.map Label.name) :
    DistinctLabels series ↔ kinds.Nodup := by
  induction kinds generalizing series with
  | nil =>
      rw [List.map_eq_nil_iff.mp hlabels]
      exact iff_of_true List.Pairwise.nil List.nodup_nil
  | cons kind rest ih =>
      obtain ⟨s, later, rfl, hs, hlater⟩ := List.map_eq_cons_iff.mp hlabels
      rw [DistinctLabels, List.pairwise_cons, List.nodup_cons]
      refine and_congr ?_ (ih hlater fun k hk => hfresh k (List.mem_cons_of_mem _ hk))
      constructor
      · intro hnone hmem
        obtain ⟨t, ht, hsame⟩ := List.mem_map.mp (hlater ▸ List.mem_map_of_mem hmem)
        refine hnone t ht fun l => ?_
        rw [hs, hsame]
      · intro hnot t ht hsame
        obtain ⟨other, hother, hother'⟩ := List.mem_map.mp (hlater ▸ List.mem_map_of_mem ht)
        have heq : kind = other := labelsOf_injective h (hfresh kind List.mem_cons_self) fun l => by
          rw [← hs, hother']
          exact hsame l
        exact hnot (heq ▸ hother)

theorem length_infinityBuckets (h : b.WellNamed) {kinds : List HistogramSeries}
    {series : List TimeSeries} (hlabels : series.map TimeSeries.labels = kinds.map b.labelsOf)
    (hfresh : ∀ kind ∈ kinds, kind.suffix = "_bucket" → "le" ∉ b.labels.tail.map Label.name) :
    (series.filter (isInfinityBucket b.name)).length = kinds.count (.bucket "+Inf") := by
  induction kinds generalizing series with
  | nil =>
      rw [List.map_eq_nil_iff.mp hlabels]
      rfl
  | cons kind rest ih =>
      obtain ⟨s, later, rfl, hs, hlater⟩ := List.map_eq_cons_iff.mp hlabels
      have hrest := ih hlater fun k hk => hfresh k (List.mem_cons_of_mem _ hk)
      have hfirst := isInfinityBucket_iff h hs (hfresh kind List.mem_cons_self)
      rw [List.count_cons, ← hrest]
      by_cases hkind : kind = .bucket "+Inf"
      · rw [List.filter_cons_of_pos (hfirst.mpr hkind), hkind]
        simp
      · rw [List.filter_cons_of_neg (mt hfirst.mp hkind)]
        simp [hkind]

end

/-! ## All metrics of a family -/

/-- The exposed upper bounds are distinct, and so are their texts. -/
structure DistinctBounds (buckets : List Dto.Bucket) : Prop where
  nodup : (upperBounds buckets).Nodup
  format : ∀ x ∈ upperBounds buckets, ∀ y ∈ upperBounds buckets,
    formatFloat x = formatFloat y → x = y

/-- The series of a histogram metric are told apart by their labels, and if there are classic ones,
one is the `+Inf` bucket. -/
structure BucketsComplete (options : ProtobufOptions) (name : String) (histogram : Dto.Histogram)
    (series : List TimeSeries) : Prop where
  distinct : DistinctLabels series
  infinity : emitsClassic options histogram = true →
    (series.filter (isInfinityBucket name)).length = 1

theorem emittedSeries_nodup_iff {options : ProtobufOptions} {histogram : Dto.Histogram} :
    (emittedSeries options histogram).Nodup ↔
      (emitsClassic options histogram = true → (leValues histogram.bucket).Nodup) := by
  have hbucket : Function.Injective HistogramSeries.bucket := fun _ _ h =>
    HistogramSeries.bucket.inj h
  rw [emittedSeries]
  cases emitsNative options histogram <;> cases emitsClassic options histogram <;>
    simp [List.nodup_map_iff hbucket]

theorem count_emittedSeries {options : ProtobufOptions} {histogram : Dto.Histogram}
    (hemits : emitsClassic options histogram = true) (le : String) :
    (emittedSeries options histogram).count (.bucket le) = (leValues histogram.bucket).count le := by
  have hbucket : Function.Injective HistogramSeries.bucket := fun _ _ h =>
    HistogramSeries.bucket.inj h
  rw [emittedSeries, hemits, if_pos rfl, List.count_append, List.count_cons, List.count_cons,
    List.count_map_of_injective _ _ hbucket]
  cases emitsNative options histogram <;> simp

theorem histograms_complete_iff {b : SeriesBuilder} (hb : b.WellNamed) {debugStr : String → String}
    {gauge : Bool} {options : ProtobufOptions} {histogram : Dto.Histogram}
    {series : List TimeSeries} (h : b.histograms debugStr gauge options histogram = .ok series)
    (hbounds : DistinctBounds histogram.bucket) :
    BucketsComplete options b.name histogram series ↔
      (emitsClassic options histogram = true →
        F64.infinity ∉ (upperBounds histogram.bucket).dropLast) := by
  obtain ⟨hlabels, hle⟩ := histograms_labels h
  have hfresh : ∀ kind ∈ emittedSeries options histogram, kind.suffix = "_bucket" →
      "le" ∉ b.labels.tail.map Label.name := by
    intro kind hkind hsuffix
    have hemits : emitsClassic options histogram = true := by
      obtain ⟨le, rfl⟩ := bucket_of_suffix hsuffix
      by_contra hnot
      rw [emittedSeries, if_neg hnot, List.append_nil] at hkind
      split at hkind
      · cases List.mem_singleton.mp hkind
      · cases hkind
    have hnamed := hle hemits
    rw [named_eq hb, List.map_cons, List.mem_cons, not_or] at hnamed
    exact hnamed.2
  have hparts : BucketsComplete options b.name histogram series ↔
      DistinctLabels series ∧ (emitsClassic options histogram = true →
        (series.filter (isInfinityBucket b.name)).length = 1) :=
    ⟨fun h => ⟨h.distinct, h.infinity⟩, fun h => ⟨h.1, h.2⟩⟩
  rw [hparts, distinctLabels_iff hb hlabels hfresh, length_infinityBuckets hb hlabels hfresh,
    emittedSeries_nodup_iff, ← forall_and]
  refine forall_congr' fun hemits => ?_
  rw [count_emittedSeries hemits]
  exact leValues_iff hbounds.nodup hbounds.format

theorem convertMetric_complete_iff {debugStr : String → String} {name : String}
    {kind : Dto.MetricType} {defaultTimestampMs : Int64} {options : ProtobufOptions}
    {metric : Dto.Metric} {series : List TimeSeries} (hname : isValidName name true = true)
    (hkind : kind ∈ [.histogram, .gaugeHistogram])
    (h : convertMetric debugStr name kind defaultTimestampMs options metric = .ok series)
    (hbounds : DistinctBounds metric.histogramOrDefault.bucket) :
    BucketsComplete options name metric.histogramOrDefault series ↔
      (emitsClassic options metric.histogramOrDefault = true →
        F64.infinity ∉ (upperBounds metric.histogramOrDefault.bucket).dropLast) := by
  rw [convertMetric] at h
  obtain ⟨labels, hlabels, h⟩ := bind_eq_ok.mp h
  obtain ⟨hnamed, hhead, -, -⟩ := baseLabels_spec hname hlabels
  have hb : SeriesBuilder.WellNamed
      ⟨name, labels, metricTimestamp metric defaultTimestampMs options⟩ := ⟨hnamed, hhead⟩
  rcases List.mem_cons.mp hkind with rfl | hkind
  · exact histograms_complete_iff hb h hbounds
  · cases List.mem_singleton.mp hkind
    exact histograms_complete_iff hb h hbounds

/-- **The series of a histogram metric are complete exactly when no exposed `+Inf` bucket comes before
another bucket**, or there are no classic ones. -/
theorem convertFamily_complete_iff {debugStr : String → String} {family : Dto.MetricFamily}
    {kind : Dto.MetricType} {defaultTimestampMs : Int64} {options : ProtobufOptions}
    {series : List TimeSeries} (hkind : Dto.MetricType.ofInt32? (family.type.getD 0) = some kind)
    (hhistogram : kind ∈ [.histogram, .gaugeHistogram])
    (h : convertFamily debugStr family defaultTimestampMs options = .ok series) :
    ∃ parts, parts.flatten = series ∧ List.Forall₂ (fun metric part =>
      convertMetric debugStr (family.name.getD "") kind defaultTimestampMs options metric = .ok part ∧
        (DistinctBounds metric.histogramOrDefault.bucket →
          (BucketsComplete options (family.name.getD "") metric.histogramOrDefault part ↔
            (emitsClassic options metric.histogramOrDefault = true →
              F64.infinity ∉ (upperBounds metric.histogramOrDefault.bucket).dropLast))))
      family.metric parts := by
  rw [convertFamily] at h
  dsimp only at h
  rw [hkind] at h
  split at h
  · cases h
  split at h
  · cases h
  · next hname =>
      obtain ⟨parts, hparts, rfl⟩ := map_eq_ok.mp h
      refine ⟨parts, rfl, (mapM_eq_ok.mp hparts).imp fun metric part hpart => ⟨hpart, ?_⟩⟩
      exact convertMetric_complete_iff (by simpa using hname) hhistogram hpart

/-! ## Out of order -/

/-- A histogram of empty buckets with these bounds. -/
def boundsHistogram (bounds : List F64) : Dto.Histogram where
  sampleCount := none
  sampleCountFloat := none
  sampleSum := none
  bucket := bounds.map fun bound => ⟨none, none, some bound⟩
  schema := none
  zeroThreshold := none
  zeroCount := none
  zeroCountFloat := none
  negativeSpan := []
  negativeDelta := []
  negativeCount := []
  positiveSpan := []
  positiveDelta := []
  positiveCount := []

/-- A family with one such histogram. -/
def boundsFamily (bounds : List F64) : Dto.MetricFamily where
  name := some "m"
  type := some 4
  metric := [{
    label := []
    gauge := none
    counter := none
    summary := none
    untyped := none
    histogram := some (boundsHistogram bounds)
    timestampMs := none }]

/-- **The `+Inf` bucket comes twice** if it is exposed before the bucket of 1. -/
theorem infinityFirst_duplicates : ∃ series,
    convertFamily id (boundsFamily [F64.infinity, F64.one]) 0 floatOptions = .ok series ∧
      DistinctBounds (boundsHistogram [F64.infinity, F64.one]).bucket ∧
      emitsClassic floatOptions (boundsHistogram [F64.infinity, F64.one]) = true ∧
      ¬ DistinctLabels series ∧ (series.filter (isInfinityBucket "m")).length = 2 := by
  obtain ⟨series, hseries, hcheck⟩ := exists_ok_of_any
    (x := convertFamily id (boundsFamily [F64.infinity, F64.one]) 0 floatOptions)
    (p := fun series => decide (¬ (series.map TimeSeries.labels).Nodup ∧
      (series.filter (isInfinityBucket "m")).length = 2)) (by decide +kernel)
  obtain ⟨hduplicate, hlength⟩ := of_decide_eq_true hcheck
  refine ⟨series, hseries, ⟨by decide, by decide +kernel⟩, by decide, fun hdistinct => ?_, hlength⟩
  refine hduplicate (List.Pairwise.map _ (fun s t hne heq => hne fun l => ?_) hdistinct)
  rw [heq]

theorem convertFamily_complete_iff_infinityLast : ∃ series,
    convertFamily id (boundsFamily [F64.one, F64.infinity]) 0 floatOptions = .ok series ∧
      (BucketsComplete floatOptions "m" (boundsHistogram [F64.one, F64.infinity]) series ↔
        (emitsClassic floatOptions (boundsHistogram [F64.one, F64.infinity]) = true →
          F64.infinity ∉ [F64.one])) := by
  obtain ⟨series, hseries, -⟩ := exists_ok_of_any
    (x := convertFamily id (boundsFamily [F64.one, F64.infinity]) 0 floatOptions)
    (p := fun series => !series.isEmpty) (by decide +kernel)
  have hkind : Dto.MetricType.ofInt32?
      ((boundsFamily [F64.one, F64.infinity]).type.getD 0) = some .histogram := by decide
  obtain ⟨parts, hflatten, hparts⟩ := convertFamily_complete_iff hkind (by decide) hseries
  obtain ⟨part, rest, ⟨-, hpart⟩, hrest, rfl⟩ := List.forall₂_cons_left_iff.mp hparts
  rw [List.forall₂_nil_left_iff.mp hrest, List.flatten_cons, List.flatten_nil,
    List.append_nil] at hflatten
  refine ⟨series, hseries, ?_⟩
  rw [← hflatten]
  exact hpart ⟨by decide, by decide +kernel⟩

end PromScrape
