import PromScrape.Library.FloatLayout
import PromScrape.Implementation.Web
import PromScrape.Proofs.LabelOrder
import PromScrape.Proofs.ParserRoundTrip
import PromScrape.Proofs.ProtobufLabels

set_option autoImplicit false

/-! # The agent's own metrics, pulled and pushed

The agent exposes its metrics as text and writes them to its remote endpoints. What it exposes parses,
whatever the counters hold, and a scrape of it gives the series that are written. -/

namespace PromScrape

open FloatText (quiet toText f64FromStr_toText)

/-! ## Lines of a body -/

theorem readBody_nothing {line : List Char} (h : NoSampleLine line) (hcr : dropCr line = line) (n : Nat)
    (rest : List (List Char)) : readBody n (line :: rest) = readBody (n + 1) rest := by
  rw [readBody, hcr, readLine_eq_none_iff.mpr h]
  show (readBody (n + 1) rest).map ([] ++ ·) = readBody (n + 1) rest
  cases readBody (n + 1) rest <;> rfl

theorem readBody_sample {line : List Char} {s : SampleText} (h : SampleLine line s)
    (hcr : dropCr line = line) (n : Nat) (rest : List (List Char)) :
    readBody n (line :: rest) = (readBody (n + 1) rest).map (s :: ·) := by
  rw [readBody, hcr, readLine_eq_sample_iff.mpr h]
  rfl

theorem dropCr_eq {line : List Char} (h : '\r' ∉ line) : dropCr line = line :=
  if_neg fun hlast => h (List.mem_of_getLast? hlast)

/-! ## One metric -/

/-- What the text of one metric says. -/
def metricText (metric : String × String × Kind × F64) : SampleText :=
  ⟨metric.1.toList, metric.1.toList, [], quiet metric.2.2.2, none⟩

/-- A metric that can be exposed: a valid name, and no line breaks in the help. -/
structure Exposable (metric : String × String × Kind × F64) : Prop where
  name : IsName true metric.1.toList
  help : '\n' ∉ metric.2.1.toList ∧ '\r' ∉ metric.2.1.toList

theorem parseValue_toText (x : F64) : parseValue (toText x) = some (quiet x) := by
  have hne : toText x ≠ "" := by
    intro hempty
    have hread := f64FromStr_toText x
    rw [hempty] at hread
    cases hread
  rw [parseValue, if_neg hne, f64FromStr_toText]

theorem carriage_not_mem_name {colon : Bool} {name : List Char} (h : IsName colon name) :
    '\r' ∉ name := by
  obtain ⟨c, rest, rfl, hhead, htail⟩ := h
  intro hmem
  rcases List.mem_cons.mp hmem with rfl | hmem
  · revert hhead
    cases colon <;> decide
  · have := htail _ hmem
    revert this
    cases colon <;> decide

/-- The exposed series of a metric without labels. -/
def exposedMetric (name : String) (value : F64) (hname : IsName true name.toList) : Exposed where
  name := name
  labels := []
  token := toText value
  value := quiet value
  timestamp := none
  crlf := false
  validName := hname
  validLabels := nofun
  legal := ⟨by decide, List.nodup_nil, List.not_mem_nil⟩
  accepted := parseValue_toText value

theorem printLine_exposedMetric {name : String} {value : F64} (hname : IsName true name.toList) :
    (exposedMetric name value hname).printLine = name.toList ++ ' ' :: (toText value).toList := by
  have hidentity : (exposedMetric name value hname).printIdentity = name.toList := if_pos rfl
  rw [Exposed.printLine, hidentity]
  show name.toList ++ ' ' :: ((toText value).toList ++ []) = _
  rw [List.append_nil]

/-- A comment about a metric. -/
def commentLine (keyword name text : String) : List Char :=
  '#' :: ' ' :: (keyword.toList ++ ' ' :: (name.toList ++ ' ' :: text.toList))

theorem metricLines_toList {metric : String × String × Kind × F64}
    (hname : IsName true metric.1.toList) :
    (metricLines metric).toList =
      commentLine "HELP" metric.1 metric.2.1 ++ '\n' ::
        (commentLine "TYPE" metric.1 metric.2.2.1.text ++ '\n' ::
          ((exposedMetric metric.1 metric.2.2.2 hname).printLine ++ ['\n'])) := by
  have hhelp : "# HELP ".toList = '#' :: ' ' :: ("HELP".toList ++ [' ']) := by decide
  have htype : "# TYPE ".toList = '#' :: ' ' :: ("TYPE".toList ++ [' ']) := by decide
  have hspace : " ".toList = [' '] := by decide
  have hnewline : "\n".toList = ['\n'] := by decide
  rw [printLine_exposedMetric, commentLine, commentLine]
  dsimp only [metricLines]
  simp only [String.toList_append, hhelp, htype, hspace, hnewline, List.append_assoc,
    List.cons_append, List.nil_append]

/-- No line break is in a comment about a metric. -/
theorem commentLine_breaks {keyword name text : String} {c : Char} (hc : c ∈ ['\n', '\r'])
    (hkeyword : c ∉ keyword.toList) (hname : IsName true name.toList) (htext : c ∉ text.toList) :
    c ∉ commentLine keyword name text := by
  have hname' : c ∉ name.toList := by
    rcases List.mem_cons.mp hc with rfl | hc
    · exact newline_not_mem_name hname
    · rw [List.mem_singleton.mp hc]
      exact carriage_not_mem_name hname
  have hfixed : c ≠ '#' ∧ c ≠ ' ' := by
    constructor <;> rintro rfl <;> exact absurd hc (by decide)
  simp [commentLine, hkeyword, hname', htext, hfixed]

theorem readBody_commentLine {keyword name text : String}
    (hkeyword : '\n' ∉ keyword.toList ∧ '\r' ∉ keyword.toList) (hname : IsName true name.toList)
    (htext : '\n' ∉ text.toList ∧ '\r' ∉ text.toList) (n : Nat) (rest : List Char) :
    readBody n (bodyLines (commentLine keyword name text ++ '\n' :: rest)) =
      readBody (n + 1) (bodyLines rest) := by
  have hcr := commentLine_breaks (by decide) hkeyword.2 hname htext.2
  have hcomment : NoSampleLine (commentLine keyword name text) := NoSampleLine.comment blanks_nil
  rw [bodyLines_append (commentLine_breaks (by decide) hkeyword.1 hname htext.1),
    readBody_nothing hcomment (dropCr_eq hcr)]

theorem Kind.text_breaks (kind : Kind) : '\n' ∉ kind.text.toList ∧ '\r' ∉ kind.text.toList := by
  cases kind <;> decide

/-- **What is rendered for a metric is read back.** -/
theorem readBody_metricLines {metric : String × String × Kind × F64} (h : Exposable metric) (n : Nat)
    (rest : List Char) :
    readBody n (bodyLines ((metricLines metric).toList ++ rest)) =
      (readBody (n + 3) (bodyLines rest)).map (metricText metric :: ·) := by
  rw [metricLines_toList h.name, List.append_assoc, List.cons_append, List.append_assoc,
    List.cons_append, List.append_assoc, List.singleton_append,
    readBody_commentLine (by decide) h.name h.help,
    readBody_commentLine (by decide) h.name (Kind.text_breaks _),
    bodyLines_append (newline_not_mem_printLine _),
    readBody_sample (sampleLine_printLine _) (dropCr_printLine _)]
  rfl

/-! ## The body -/

theorem readBody_metrics {metrics : List (String × String × Kind × F64)}
    (h : ∀ metric ∈ metrics, Exposable metric) (n : Nat) (rest : List Char) :
    readBody n (bodyLines ((metrics.map metricLines).flatMap String.toList ++ rest)) =
      (readBody (n + 3 * metrics.length) (bodyLines rest)).map (metrics.map metricText ++ ·) := by
  induction metrics generalizing n with
  | nil =>
      show readBody n (bodyLines rest) = (readBody n (bodyLines rest)).map ([] ++ ·)
      cases readBody n (bodyLines rest) <;> rfl
  | cons metric metrics ih =>
      obtain ⟨hmetric, hmetrics⟩ := List.forall_mem_cons.mp h
      rw [List.map_cons, List.flatMap_cons, List.append_assoc, readBody_metricLines hmetric,
        ih hmetrics, List.length_cons, Nat.mul_add, Nat.mul_one, Nat.add_assoc,
        Nat.add_comm 3 (3 * metrics.length)]
      cases readBody (n + (3 * metrics.length + 3)) (bodyLines rest) <;> rfl

/-- The series that says which version runs. -/
def buildInfo : Exposed where
  name := "prometheus_scrape_rs_build_info"
  labels := [⟨"version", cargoPkgVersion⟩]
  token := "1"
  value := F64.one
  timestamp := none
  crlf := false
  validName := (isValidName_iff _ true).mp (by decide)
  validLabels := List.forall_mem_singleton.mpr ((isValidName_iff _ false).mp (by decide))
  legal := ⟨by decide, by decide, by decide⟩
  accepted := by decide +kernel

theorem snapshot_exposable (m : Metrics) (process : Option ProcessStats) :
    ∀ metric ∈ m.snapshot process, Exposable metric := by
  have htexts : ∀ p ∈ (m.snapshot process).map fun metric => (metric.1, metric.2.1),
      isValidName p.1 true = true ∧ '\n' ∉ p.2.toList ∧ '\r' ∉ p.2.toList := by
    cases process with
    | none =>
        dsimp only [Metrics.snapshot]
        simp only [List.map_cons, List.map_nil]
        decide +kernel
    | some process =>
        dsimp only [Metrics.snapshot]
        simp only [List.map_append, List.map_cons, List.map_nil]
        decide +kernel
  intro metric hmetric
  obtain ⟨hname, hhelp⟩ := htexts _ (List.mem_map_of_mem hmetric)
  exact ⟨(isValidName_iff _ true).mp hname, hhelp⟩

theorem toList_join (texts : List String) :
    (String.join texts).toList = texts.flatMap String.toList := by
  have hfold : ∀ (texts : List String) (init : String),
      (texts.foldl (· ++ ·) init).toList = init.toList ++ texts.flatMap String.toList := by
    intro texts
    induction texts with
    | nil => simp
    | cons text texts ih =>
        intro init
        rw [List.foldl_cons, ih, String.toList_append, List.flatMap_cons, List.append_assoc]
  exact hfold texts ""

theorem render_toList (m : Metrics) (process : Option ProcessStats) :
    (m.render process).toList = ((m.snapshot process).map metricLines).flatMap String.toList ++
      (commentLine "HELP" buildInfo.name "Build information." ++ '\n' ::
        (commentLine "TYPE" buildInfo.name "gauge" ++ '\n' :: (buildInfo.printLine ++ ['\n']))) := by
  have hhelp : "# HELP prometheus_scrape_rs_build_info Build information.\n".toList =
      commentLine "HELP" buildInfo.name "Build information." ++ ['\n'] := by decide
  have htype : "# TYPE prometheus_scrape_rs_build_info gauge\n".toList =
      commentLine "TYPE" buildInfo.name "gauge" ++ ['\n'] := by decide
  have hline : "prometheus_scrape_rs_build_info\x7bversion=\"".toList ++
      (cargoPkgVersion.toList ++ "\"\x7d 1\n".toList) = buildInfo.printLine ++ ['\n'] := by decide
  dsimp only [Metrics.render]
  simp only [String.toList_append, toList_join, hhelp, htype, List.append_assoc]
  rw [hline]
  rfl

/-- **The exposition parses**, whatever the counters hold. -/
theorem parse_render (m : Metrics) (process : Option ProcessStats) (timestamp : Int64)
    (honorTimestamps : Bool) :
    parse (m.render process) timestamp honorTimestamps =
      .ok ((m.snapshot process).map (fun metric =>
          (metricText metric).series timestamp honorTimestamps) ++
        [buildInfo.text.series timestamp honorTimestamps]) := by
  have hread : readBody 0 (bodyLines (m.render process).toList) =
      .ok ((m.snapshot process).map metricText ++ [buildInfo.text]) := by
    rw [render_toList, readBody_metrics (snapshot_exposable m process),
      readBody_commentLine (by decide) buildInfo.validName (by decide),
      readBody_commentLine (by decide) buildInfo.validName (by decide),
      bodyLines_append (newline_not_mem_printLine _),
      readBody_sample (sampleLine_printLine _) (dropCr_printLine _)]
    rfl
  have hagrees := parse_agrees (m.render process) timestamp honorTimestamps
  rw [hread] at hagrees
  cases hparse : parse (m.render process) timestamp honorTimestamps with
  | error fault =>
      rw [hparse] at hagrees
      cases fault <;> exact hagrees.elim
  | ok series =>
      rw [hparse] at hagrees
      have heq : series = [] ++ ((m.snapshot process).map metricText ++ [buildInfo.text]).map
        (·.series timestamp honorTimestamps) := hagrees
      rw [heq, List.nil_append, List.map_append, List.map_map, List.map_singleton]
      rfl

/-! ## Pulled and pushed -/

/-- What a series says, whichever way it came. -/
def said (labels : List Label) (s : TimeSeries) : List Label × F64 × Int64 × Option Histogram :=
  (labels, quiet s.sample.value, s.sample.timestamp, s.histogram)

theorem quiet_quiet (x : F64) : quiet (quiet x) = quiet x := by
  rw [quiet]
  split
  · next hnan =>
      by_cases hx : F64.infinity.bits < x.bits &&& 0x7fffffffffffffff
      · rw [quiet, if_pos hx]
      · rw [quiet, if_neg hx] at hnan
        exact absurd hnan hx
  · rfl

/-- **The agent's own metrics are the same pulled and pushed.** Whatever the counters hold, the body
    for `GET /metrics` parses, and its series with the labels that the self-monitor adds are the ones
    that it writes to the remote endpoints. -/
theorem metrics_scraped (state : WebState) (method : String) (hmethod : isGet method = true)
    (timestamp : Int64) (honorTimestamps : Bool) (extraLabels : List Label)
    (hextra : UniqueNames (⟨metricNameLabel, ""⟩ :: ⟨"version", ""⟩ :: extraLabels)) :
    ∃ body scraped, route state method "/metrics" = .answer "200 OK" body ∧
      parse body timestamp honorTimestamps = .ok scraped ∧
      ((state.metrics.series state.process extraLabels timestamp).map fun s => said s.labels s).Perm
        (scraped.map fun s => said (sortLabels (s.labels ++ extraLabels)) s) := by
  have hroute : route state method "/metrics" =
      .answer "200 OK" (state.metrics.render state.process) := by
    rw [route, hmethod]
    rfl
  refine ⟨_, _, hroute, parse_render _ _ _ _, ?_⟩
  refine ((List.perm_insertionSort _ _).map _).trans (List.Perm.of_eq ?_)
  rw [List.map_append, List.map_append, List.map_map, List.map_map, List.map_singleton,
    List.map_singleton]
  congr 1
  · refine List.map_congr_left fun metric _ => ?_
    simp only [Function.comp_def, said, metricSeries, metricText, SampleText.series, quiet_quiet,
      String.ofList_toList, Option.getD_none, ite_self, List.nil_append, List.cons_append]
  · have hunique : UniqueNames (⟨metricNameLabel, buildInfo.name⟩ :: ⟨"version", cargoPkgVersion⟩ ::
        extraLabels) := hextra
    have hsorted : sortLabels ([⟨"version", cargoPkgVersion⟩] ++
        ⟨metricNameLabel, buildInfo.name⟩ :: extraLabels) =
          sortLabels ((⟨metricNameLabel, buildInfo.name⟩ :: buildInfo.labels) ++ extraLabels) :=
      (sortLabels_eq_of_perm hunique (List.Perm.swap _ _ _)).symm
    have hlabels : (buildInfo.text.series timestamp honorTimestamps).labels =
        ⟨metricNameLabel, buildInfo.name⟩ :: buildInfo.labels := by
      rw [SampleText.series, Exposed.text, String.ofList_toList]
    have hstamp : (buildInfo.text.series timestamp honorTimestamps).sample =
        ⟨F64.one, timestamp⟩ := by
      cases honorTimestamps <;> rfl
    rw [hlabels, ← hsorted, said, said, hstamp]
    rfl

/-- With the labels of a self-monitor and a counter that has counted. -/
theorem metrics_scraped_job : ∃ body scraped,
    route ⟨true, { scrapesTotal := ⟨3⟩ }, none, false⟩ "GET" "/metrics" = .answer "200 OK" body ∧
      parse body 7 true = .ok scraped ∧
      (({ scrapesTotal := ⟨3⟩ } : Metrics).series none [⟨"job", "prometheus-scrape-rs"⟩] 7).length =
        scraped.length := by
  obtain ⟨body, scraped, hroute, hparse, hperm⟩ := metrics_scraped
    ⟨true, { scrapesTotal := ⟨3⟩ }, none, false⟩ "GET" (by decide) 7 true
    [⟨"job", "prometheus-scrape-rs"⟩] (by decide)
  exact ⟨body, scraped, hroute, hparse, by simpa using hperm.length_eq⟩

end PromScrape
