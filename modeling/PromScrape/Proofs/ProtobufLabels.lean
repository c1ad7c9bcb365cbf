import PromScrape.Library.ProtoWire
import PromScrape.Proofs.LabelNames
import PromScrape.Proofs.ParserReader
import PromScrape.Proofs.ProtobufSeries

set_option autoImplicit false

/-! # The labels of protobuf series

`base_labels` checks what a metric exposes; the series are derived from that afterwards, by suffixes
to the metric name and labels `le` and `quantile`. Names stay valid and unique, but the cap on the
number of labels is checked before the derived label is added. -/

namespace PromScrape

open Utf8 (utf8Bytes encode)
open Fallible

/-! ## Names -/

/-- **The names that the parsers accept.** -/
theorem isValidName_iff (name : String) (colon : Bool) :
    isValidName name colon = true ↔ IsName colon name.toList := by
  rw [isValidName, Utf8.utf8Bytes_eq_encode]
  cases hname : name.toList with
  | nil =>
      refine iff_of_false Bool.false_ne_true ?_
      rintro ⟨c, rest, h, -⟩
      cases h
  | cons c rest =>
      have hcons : IsName colon (c :: rest) ↔
          isNameHead colon c = true ∧ rest.all (isNameTail colon) = true := by
        rw [List.all_eq_true]
        constructor
        · rintro ⟨c', rest', h, hhead, htail⟩
          cases h
          exact ⟨hhead, htail⟩
        · rintro ⟨hhead, htail⟩
          exact ⟨c, rest, rfl, hhead, htail⟩
      obtain ⟨t, ht⟩ := Scan.encodeChar_eq_cons c
      rw [hcons, Utf8.encode_cons, ht, List.cons_append]
      dsimp only
      rw [Bool.and_eq_true, (uniform_isNameStart colon).headByte]
      refine and_congr_right fun hhead => ?_
      have hascii := Scan.tail_eq_nil (isNameHead_ascii hhead) ht
      rw [hascii, List.nil_append, (uniform_isNameContinue colon).all_encode]

theorem IsName.append {colon : Bool} {name suffix : List Char} (h : IsName colon name)
    (hsuffix : ∀ c ∈ suffix, isNameTail colon c = true) : IsName colon (name ++ suffix) := by
  obtain ⟨c, rest, rfl, hhead, htail⟩ := h
  exact ⟨c, rest ++ suffix, rfl, hhead, List.forall_mem_append.mpr ⟨htail, hsuffix⟩⟩

/-! ## What is exposed -/

theorem duplicateByScan_eq_none {before labels : List Label}
    (h : duplicateByScan before labels = none) (hbefore : UniqueNames before) :
    UniqueNames (before ++ labels) := by
  induction labels generalizing before with
  | nil => rwa [List.append_nil]
  | cons label rest ih =>
      rw [duplicateByScan] at h
      split at h
      · cases h
      · next hfresh =>
          rw [List.append_cons]
          refine ih h ?_
          have hnot : label.name ∉ before.map Label.name := mt Keyed.any_key_iff.mpr hfresh
          rw [← Keyed.upsert_of_not_mem hnot]
          exact Keyed.Unique.upsert hbefore label

theorem duplicateByIndex_eq_none {seen : List String} {labels : List Label}
    (h : duplicateByIndex seen labels = none) :
    UniqueNames labels ∧ ∀ l ∈ labels, l.name ∉ seen := by
  induction labels generalizing seen with
  | nil => exact ⟨Keyed.unique_nil, nofun⟩
  | cons label rest ih =>
      rw [duplicateByIndex] at h
      split at h
      · cases h
      · next hfresh =>
          obtain ⟨hunique, hrest⟩ := ih h
          refine ⟨Keyed.unique_cons.mpr ⟨fun hmem => ?_, hunique⟩, ?_⟩
          · obtain ⟨l, hl, hname⟩ := List.mem_map.mp hmem
            exact hrest l hl (hname ▸ List.mem_insert_self)
          · refine List.forall_mem_cons.mpr ⟨by simpa using hfresh, fun l hl hseen => ?_⟩
            exact hrest l hl (List.mem_insert_of_mem hseen)

theorem exposedLabels_spec {debugStr : String → String} {pairs : List Dto.LabelPair}
    {labels : List Label} (h : exposedLabels debugStr pairs = .ok labels) :
    labels.length = pairs.length ∧ ∀ l ∈ labels, IsName false l.name.toList := by
  induction pairs generalizing labels with
  | nil =>
      cases h
      exact ⟨rfl, nofun⟩
  | cons pair rest ih =>
      rw [exposedLabels] at h
      split at h
      · cases h
      · next hvalid =>
          obtain ⟨labels', hlabels', rfl⟩ := map_eq_ok.mp h
          obtain ⟨hlength, hnames⟩ := ih hlabels'
          refine ⟨by rw [List.length_cons, hlength, List.length_cons], ?_⟩
          refine List.forall_mem_cons.mpr ⟨?_, hnames⟩
          rw [← isValidName_iff]
          simpa using hvalid

/-- Labels in the order of a series: a metric name, then labels with valid names, none twice. -/
structure WellNamed (labels : List Label) : Prop where
  metricName : ∃ name, labels.head? = some ⟨metricNameLabel, name⟩ ∧ IsName true name.toList
  labelNames : ∀ l ∈ labels.tail, IsName false l.name.toList
  unique : UniqueNames labels

theorem baseLabels_spec {debugStr : String → String} {name : String} {pairs : List Dto.LabelPair}
    {labels : List Label} (hname : isValidName name true = true)
    (h : baseLabels debugStr name pairs = .ok labels) :
    WellNamed labels ∧ labels.head? = some ⟨metricNameLabel, name⟩ ∧
      labels.length = pairs.length + 1 ∧ pairs.length + 1 ≤ maxLabelsPerSeries := by
  rw [baseLabels] at h
  split at h
  · cases h
  · next hcap =>
      obtain ⟨exposed, hexposed, h⟩ := bind_eq_ok.mp h
      obtain ⟨hlength, hnames⟩ := exposedLabels_spec hexposed
      dsimp only at h
      split at h
      · cases h
      · next hduplicate =>
          cases h
          have hunique : UniqueNames (⟨metricNameLabel, name⟩ :: exposed) := by
            split at hduplicate
            · exact duplicateByScan_eq_none hduplicate Keyed.unique_nil
            · exact (duplicateByIndex_eq_none hduplicate).1
          refine ⟨⟨⟨name, rfl, (isValidName_iff name true).mp hname⟩, hnames, hunique⟩, rfl, ?_, ?_⟩
          · rw [List.length_cons, hlength]
          · exact Nat.le_of_not_lt hcap

/-! ## What is derived -/

/-- The builder of a metric: its labels start with its name. -/
structure SeriesBuilder.WellNamed (b : SeriesBuilder) : Prop where
  labels : PromScrape.WellNamed b.labels
  head : b.labels.head? = some ⟨metricNameLabel, b.name⟩

theorem length_named (b : SeriesBuilder) (suffix : String) :
    (b.named suffix).length = b.labels.length := by
  rw [SeriesBuilder.named]
  split
  · rfl
  · split
    · next hnil => rw [hnil]
    · next hcons => rw [hcons, List.length_cons, List.length_cons]

/-- The labels of a float series: those of the metric under its name, and on top the derived one,
which is none of them. -/
theorem float_labels {b : SeriesBuilder} {debugStr : String → String} {suffix : String}
    {extra : Option Label} {value : F64} {s : TimeSeries}
    (h : b.float debugStr suffix extra value = .ok s) :
    s.labels = b.named suffix ++ extra.toList ∧
      ∀ l ∈ extra, l.name ∉ (b.named suffix).map Label.name := by
  obtain ⟨labels, hlabels, rfl⟩ := map_eq_ok.mp h
  rw [SeriesBuilder.labelsWith.eq_def] at hlabels
  cases extra with
  | none =>
      cases hlabels
      exact ⟨(List.append_nil _).symm, nofun⟩
  | some l =>
      dsimp only at hlabels
      split at hlabels
      · cases hlabels
      · next hfresh =>
          cases hlabels
          refine ⟨rfl, fun l' hl' => ?_⟩
          cases hl'
          exact mt Keyed.any_key_iff.mpr hfresh

theorem length_float_derived {b : SeriesBuilder} {debugStr : String → String} {suffix : String}
    {extra : Label} {value : F64} {s : TimeSeries}
    (hs : b.float debugStr suffix (some extra) value = .ok s) :
    s.labels.length = b.labels.length + 1 := by
  rw [(float_labels hs).1, List.length_append, length_named]
  rfl

theorem SeriesBuilder.WellNamed.named {b : SeriesBuilder} (h : b.WellNamed) {suffix : String}
    (hsuffix : suffix ∈ ["", "_count", "_sum", "_bucket"]) :
    PromScrape.WellNamed (b.named suffix) := by
  obtain ⟨⟨name, hhead, hname⟩, htail, hunique⟩ := h.labels
  rw [SeriesBuilder.named]
  split
  · exact h.labels
  · cases hlabels : b.labels with
    | nil => rw [hlabels] at hhead; cases hhead
    | cons first rest =>
        have hfirst : first = ⟨metricNameLabel, b.name⟩ := by
          have := h.head
          rw [hlabels] at this
          exact Option.some.inj this
        have hsame : first = ⟨metricNameLabel, name⟩ := by
          rw [hlabels] at hhead
          exact Option.some.inj hhead
        have hbname : b.name = name := by
          rw [hfirst] at hsame
          injection hsame
        rw [hlabels] at htail hunique
        have hkeys : Keyed.Unique Label.name (⟨first.name, b.name ++ suffix⟩ :: rest) := hunique
        refine ⟨⟨b.name ++ suffix, by rw [hfirst]; rfl, ?_⟩, htail, hkeys⟩
        rw [String.toList_append, hbname]
        refine hname.append ?_
        have hchars : ∀ s ∈ ["", "_count", "_sum", "_bucket"],
            s.toList.all (isNameTail true) = true := by decide
        exact List.all_eq_true.mp (hchars suffix hsuffix)

theorem WellNamed.append_label {labels : List Label} {extra : Label} (h : WellNamed labels)
    (hfresh : extra.name ∉ labels.map Label.name) (hname : IsName false extra.name.toList) :
    WellNamed (labels ++ [extra]) := by
  obtain ⟨⟨name, hhead, hmetric⟩, htail, hunique⟩ := h
  cases labels with
  | nil => cases hhead
  | cons first rest =>
      refine ⟨⟨name, hhead, hmetric⟩, ?_, ?_⟩
      · exact List.forall_mem_append.mpr ⟨htail, List.forall_mem_singleton.mpr hname⟩
      · rw [← Keyed.upsert_of_not_mem hfresh]
        exact Keyed.Unique.upsert hunique extra

theorem SeriesBuilder.WellNamed.float_plain {b : SeriesBuilder} (h : b.WellNamed)
    {debugStr : String → String} {suffix : String} {value : F64} {s : TimeSeries}
    (hsuffix : suffix ∈ ["", "_count", "_sum", "_bucket"])
    (hs : b.float debugStr suffix none value = .ok s) :
    PromScrape.WellNamed s.labels ∧ s.labels.length = b.labels.length := by
  rw [(float_labels hs).1, Option.toList_none, List.append_nil]
  exact ⟨h.named hsuffix, length_named b suffix⟩

/-- A derived label comes on top of the labels the metric has. -/
theorem SeriesBuilder.WellNamed.float_derived {b : SeriesBuilder} (h : b.WellNamed)
    {debugStr : String → String} {suffix : String} {extra : Label} {value : F64} {s : TimeSeries}
    (hextra : (suffix, extra.name) ∈ [("", "quantile"), ("_bucket", "le")])
    (hs : b.float debugStr suffix (some extra) value = .ok s) :
    PromScrape.WellNamed s.labels := by
  have hchecked : suffix ∈ ["", "_count", "_sum", "_bucket"] ∧ IsName false extra.name.toList := by
    rw [← isValidName_iff]
    rcases List.mem_cons.mp hextra with heq | hextra
    · obtain ⟨rfl, hname⟩ := Prod.mk.inj heq
      rw [hname]
      decide
    · obtain ⟨rfl, hname⟩ := Prod.mk.inj (List.mem_singleton.mp hextra)
      rw [hname]
      decide
  obtain ⟨hlabels, hfresh⟩ := float_labels hs
  rw [hlabels]
  exact (h.named hchecked.1).append_label (hfresh extra rfl) hchecked.2

theorem SeriesBuilder.WellNamed.makes {b : SeriesBuilder} (h : b.WellNamed)
    {debugStr : String → String} {derives : Bool} {s : TimeSeries}
    (hs : b.Makes debugStr derives s) :
    PromScrape.WellNamed s.labels ∧
      (s.labels.length = b.labels.length ∨
        derives = true ∧ s.labels.length = b.labels.length + 1) := by
  cases hs with
  | native histogram => exact ⟨h.labels, .inl rfl⟩
  | plain hsuffix hfloat =>
      have hmem : ∀ suffix ∈ ["", "_count", "_sum"], suffix ∈ ["", "_count", "_sum", "_bucket"] := by
        decide
      obtain ⟨hnamed, hlength⟩ := h.float_plain (hmem _ hsuffix) hfloat
      exact ⟨hnamed, .inl hlength⟩
  | derived hderives hextra hfloat =>
      exact ⟨h.float_derived hextra hfloat, .inr ⟨hderives, length_float_derived hfloat⟩⟩

/-! ## All series -/

/-- The well-formedness of the text format's series. -/
structure WellFormedLabels (labels : List Label) : Prop where
  named : WellNamed labels
  length_le : labels.length ≤ maxLabelsPerSeries

/-- A metric with as many labels as a series may have, `__name__` included, and series with a derived
    label on top. -/
def ExceedsCap (options : ProtobufOptions) (family : Dto.MetricFamily) (metric : Dto.Metric) : Prop :=
  metric.label.length + 1 = maxLabelsPerSeries ∧
    ∃ kind, Dto.MetricType.ofInt32? (family.type.getD 0) = some kind ∧
      derivesLabel kind options metric = true

/-- The series of one metric: all are well named, and all are within the cap unless the metric
    exceeds it. -/
theorem Converts.labels {debugStr : String → String} {defaultTimestampMs : Int64}
    {options : ProtobufOptions} {family : Dto.MetricFamily} {metric : Dto.Metric}
    {series : List TimeSeries}
    (h : Converts debugStr defaultTimestampMs options family metric series) :
    (∀ s ∈ series, WellNamed s.labels) ∧
      ((∀ s ∈ series, s.labels.length ≤ maxLabelsPerSeries) ↔
        ¬ ExceedsCap options family metric) := by
  obtain ⟨kind, labels, hname, hkind, hlabels, hseries⟩ := h
  obtain ⟨hnamed, hhead, hlength, hcap⟩ := baseLabels_spec hname hlabels
  have hbuilder : (builderOf (family.name.getD "") labels metric defaultTimestampMs
      options).WellNamed := ⟨hnamed, hhead⟩
  obtain ⟨hmakes, hderived⟩ := metric_makes hseries
  have hbase : (builderOf (family.name.getD "") labels metric defaultTimestampMs
      options).labels.length = metric.label.length + 1 := hlength
  refine ⟨fun s hs => (hbuilder.makes (hmakes s hs)).1, ?_⟩
  constructor
  · rintro hall ⟨hfull, kind', hkind', hderives⟩
    cases hkind.symm.trans hkind'
    obtain ⟨s, hs, suffix, extra, value, hfloat⟩ := hderived hderives
    have hmore := length_float_derived hfloat
    have hwithin := hall s hs
    omega
  · intro hnot s hs
    rcases (hbuilder.makes (hmakes s hs)).2 with hsame | ⟨hderives, hmore⟩
    · omega
    · have hroom : metric.label.length + 1 ≠ maxLabelsPerSeries :=
        fun hfull => hnot ⟨hfull, kind, hkind, hderives⟩
      omega

/-- **Every protobuf series has valid names, none twice.** -/
theorem parseProtobuf_wellNamed {prost : ProstDecoder} {body : List UInt8}
    {defaultTimestampMs : Int64} {options : ProtobufOptions} {series : List TimeSeries}
    (h : parseProtobuf prost body defaultTimestampMs options = .ok series) :
    ∀ s ∈ series, WellNamed s.labels := by
  intro s hs
  obtain ⟨family, -, metric, -, ms, hms, hmem⟩ := (parseProtobuf_converts h).source s hs
  exact hms.labels.1 s hmem

/-- **When protobuf series are as well-formed as the text format's**: when no metric exceeds the cap. -/
theorem parseProtobuf_wellFormed_iff {prost : ProstDecoder} {body : List UInt8}
    {defaultTimestampMs : Int64} {options : ProtobufOptions} {series : List TimeSeries}
    (h : parseProtobuf prost body defaultTimestampMs options = .ok series) :
    (∀ s ∈ series, WellFormedLabels s.labels) ↔
      ∀ family ∈ familiesOf prost body, ∀ metric ∈ family.metric,
        ¬ ExceedsCap options family metric := by
  have hconverts := parseProtobuf_converts h
  constructor
  · intro hall family hfamily metric hmetric
    obtain ⟨ms, hms, hmem⟩ := hconverts.converts family hfamily metric hmetric
    exact hms.labels.2.mp fun s hs => (hall s (hmem s hs)).length_le
  · intro hnone s hs
    obtain ⟨family, hfamily, metric, hmetric, ms, hms, hmem⟩ := hconverts.source s hs
    obtain ⟨hnamed, hcap⟩ := hms.labels
    exact ⟨hnamed s hmem, hcap.mpr (hnone family hfamily metric hmetric) s hmem⟩

/-! ## Messages -/

/-- The delimited message of a family with one histogram metric without observations. -/
def histogramMessage (name : String) (labels : List Label) : List UInt8 :=
  let pair (l : Label) := ProtoWire.encodeFields
    [⟨1, .len (utf8Bytes l.name)⟩, ⟨2, .len (utf8Bytes l.value)⟩]
  let metric := ProtoWire.encodeFields (labels.map (fun l => ⟨1, .len (pair l)⟩) ++ [⟨7, .len []⟩])
  let family := ProtoWire.encodeFields
    [⟨1, .len (utf8Bytes name)⟩, ⟨3, .varint 4⟩, ⟨4, .len metric⟩]
  ProtoWire.varint (UInt64.ofNat family.length) ++ family

/-- What that message decodes to. -/
def histogramFamily (name : String) (labels : List Label) : Dto.MetricFamily where
  name := some name
  type := some 4
  metric := [{
    label := labels.map fun l => ⟨some l.name, some l.value⟩
    gauge := none
    counter := none
    summary := none
    untyped := none
    histogram := some Dto.Histogram.default
    timestampMs := none }]

theorem histogramMessage_ne_nil (name : String) (labels : List Label) :
    histogramMessage name labels ≠ [] :=
  List.append_ne_nil_of_left_ne_nil (ProtoWire.varintDigits_ne_nil 9 _) _

/-- A decoder that knows one histogram message. -/
def histogramDecoder (name : String) (labels : List Label) : ProstDecoder where
  decode := fun bytes =>
    if bytes = histogramMessage name labels then .ok (histogramFamily name labels, [])
    else .error "buffer underflow"
  consumes := by
    intro bytes family rest h
    split at h
    · next heq =>
        cases h
        exact List.length_pos_of_ne_nil (heq ▸ histogramMessage_ne_nil name labels)
    · cases h
  debugStr := id

def floatOptions : ProtobufOptions where
  honorTimestamps := true
  nativeHistograms := false
  classicHistograms := false
  bucketLimit := 0

/-- 127 labels, as many as a metric may expose. -/
def manyLabels : List Label :=
  (List.range 127).map fun i =>
    ⟨String.ofList [Char.ofNat (97 + i % 26), Char.ofNat (65 + i / 26)], "v"⟩

theorem parseProtobuf_wellFormed_histogram :
    ∃ series, parseProtobuf (histogramDecoder "m" [⟨"a", "1"⟩])
        (histogramMessage "m" [⟨"a", "1"⟩]) 0 floatOptions = .ok series ∧
      3 ≤ series.length ∧ ∀ s ∈ series, WellFormedLabels s.labels := by
  obtain ⟨series, hseries, hlength⟩ := exists_ok_of_any
    (x := parseProtobuf (histogramDecoder "m" [⟨"a", "1"⟩])
      (histogramMessage "m" [⟨"a", "1"⟩]) 0 floatOptions)
    (p := fun series => decide (3 ≤ series.length)) (by decide +kernel)
  refine ⟨series, hseries, of_decide_eq_true hlength, ?_⟩
  refine (parseProtobuf_wellFormed_iff hseries).mpr ?_
  have hfamilies : familiesOf (histogramDecoder "m" [⟨"a", "1"⟩])
      (histogramMessage "m" [⟨"a", "1"⟩]) = [histogramFamily "m" [⟨"a", "1"⟩]] := by decide +kernel
  rw [hfamilies]
  refine List.forall_mem_singleton.mpr (List.forall_mem_singleton.mpr ?_)
  rintro ⟨hfull, -⟩
  revert hfull
  decide

/-- **The series `m_bucket` of 127 labels has 129.** -/
theorem parseProtobuf_exceeds_cap :
    ¬ ∀ (prost : ProstDecoder) (body : List UInt8) (defaultTimestampMs : Int64)
      (options : ProtobufOptions) (series : List TimeSeries),
      parseProtobuf prost body defaultTimestampMs options = .ok series →
      ∀ s ∈ series, WellFormedLabels s.labels := by
  intro h
  obtain ⟨series, hseries, hlong⟩ := exists_ok_of_any
    (x := parseProtobuf (histogramDecoder "m" manyLabels) (histogramMessage "m" manyLabels) 0
      floatOptions)
    (p := fun series => series.any fun s => decide (maxLabelsPerSeries < s.labels.length))
    (by decide +kernel)
  obtain ⟨s, hs, hlength⟩ := List.any_eq_true.mp hlong
  have hwithin := (h _ _ _ _ series hseries s hs).length_le
  exact absurd (of_decide_eq_true hlength) (Nat.not_lt.mpr hwithin)

end PromScrape
