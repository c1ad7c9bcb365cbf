import PromScrape.Implementation.Flush
import PromScrape.Proofs.ProtobufLabels
import PromScrape.Proofs.Staleness

set_option autoImplicit false

/-! # The labels of what is sent

Scraped series and the markers of vanished ones come out of the label pipeline, so they obey the label
rule, and write relabeling keeps it. The report series are assembled by hand: their metric name is put
in front of the target's and the external labels, whatever those are called. -/

namespace PromScrape

open Utf8 (utf8Bytes ofUtf8Bytes?)
open Regex (Engine)
open Fallible (bind_eq_ok map_eq_ok)

/-- Every series obeys the label rule. -/
def AllSorted (series : List TimeSeries) : Prop := ∀ s ∈ series, StrictlySorted s.labels

instance decidableAllSorted (series : List TimeSeries) : Decidable (AllSorted series) :=
  inferInstanceAs (Decidable (∀ s ∈ series, StrictlySorted s.labels))

theorem allSorted_nil : AllSorted [] := fun _ h => (List.not_mem_nil h).elim

theorem allSorted_append {xs ys : List TimeSeries} :
    AllSorted (xs ++ ys) ↔ AllSorted xs ∧ AllSorted ys := List.forall_mem_append

/-! ## Parsed bodies -/

/-- The parser of the text format refuses duplicate label names. -/
theorem parse_unique {body : String} {defaultTimestampMs : Int64} {honorTimestamps : Bool}
    {series : List TimeSeries} (h : parse body defaultTimestampMs honorTimestamps = .ok series) :
    ∀ s ∈ series, UniqueNames s.labels := by
  have hagrees := parse_agrees body defaultTimestampMs honorTimestamps
  rw [h] at hagrees
  cases hread : readBody 0 (bodyLines body.toList) with
  | error n =>
      rw [hread] at hagrees
      exact hagrees.elim
  | ok samples =>
      rw [hread] at hagrees
      intro s hs
      have hseries : series = samples.map (·.series defaultTimestampMs honorTimestamps) := by
        rw [← List.nil_append (samples.map _)]
        exact hagrees
      rw [hseries] at hs
      obtain ⟨sample, hsample, rfl⟩ := List.mem_map.mp hs
      obtain ⟨line, hline⟩ := readLine_of_mem_readBody hread sample hsample
      cases readLine_eq_sample_iff.mp hline with
      | mk _ _ _ _ hpairs _ _ _ => exact Keyed.unique_cons.mpr ⟨hpairs.not_metricName, hpairs.nodup⟩

/-- No format lets a series have a label name twice. -/
theorem parseBody_unique {deps : ScrapeDeps} {target : Target deps.relabel.engine}
    {body : List UInt8} {format : BodyFormat} {startMs : Int64} {series : List TimeSeries}
    (h : parseBody deps target body format startMs = .ok (.ok series)) :
    ∀ s ∈ series, UniqueNames s.labels := by
  cases format with
  | text =>
      rw [parseBody] at h
      split at h
      · cases h
      · split at h
        · next hparse =>
            cases h
            exact parse_unique hparse
        · cases h
        · cases h
  | protobuf =>
      rw [parseBody] at h
      cases hparse : parseProtobuf deps.prost body startMs target.protobuf with
      | error message =>
          rw [hparse] at h
          cases h
      | ok parsed =>
          rw [hparse] at h
          cases h
          exact fun s hs => (parseProtobuf_wellNamed hparse s hs).unique

/-! ## Scraped series and markers -/

theorem finalizeBatch_sorted {deps : RelabelDeps} {target : Target deps.engine}
    {series batch : List TimeSeries} (hseries : ∀ s ∈ series, UniqueNames s.labels)
    (h : finalizeBatch deps target series = .ok batch) : AllSorted batch := by
  induction series generalizing batch with
  | nil =>
      cases h
      exact allSorted_nil
  | cons single rest ih =>
      obtain ⟨hsingle, hrest⟩ := List.forall_mem_cons.mp hseries
      rw [finalizeBatch] at h
      split at h
      · cases h
      · exact ih hrest h
      · next labels hlabels =>
          obtain ⟨batch', hbatch', rfl⟩ := map_eq_ok.mp h
          exact List.forall_mem_cons.mpr
            ⟨strictlySorted_finalizeSeriesLabels hsingle hlabels, ih hrest hbatch'⟩

theorem rederiveFrom_sorted {deps : RelabelDeps} {target : Target deps.engine}
    {retainedStartMs timestamp : Int64} {vanished : List UInt64} {series markers : List TimeSeries}
    {consumed : List Bool} (hseries : ∀ s ∈ series, UniqueNames s.labels)
    (h : rederiveFrom deps target retainedStartMs vanished timestamp series consumed = .ok markers) :
    AllSorted markers := by
  induction series generalizing consumed markers with
  | nil =>
      rw [rederiveFrom] at h
      cases h
      exact allSorted_nil
  | cons single rest ih =>
      obtain ⟨hsingle, hrest⟩ := List.forall_mem_cons.mp hseries
      rw [rederiveFrom] at h
      split at h
      · exact ih hrest h
      split at h
      · exact ih hrest h
      split at h
      · exact ih hrest h
      split at h
      · cases h
      · exact ih hrest h
      · next labels hlabels =>
          obtain ⟨markers', hmarkers', rfl⟩ := map_eq_ok.mp h
          exact List.forall_mem_cons.mpr
            ⟨strictlySorted_finalizeSeriesLabels hsingle hlabels, ih hrest hmarkers'⟩

theorem rederiveMarkers_sorted {deps : ScrapeDeps} {target : Target deps.relabel.engine}
    {tracker : SeriesTracker} {vanished : List UInt64} {timestamp : Int64}
    {markers : List TimeSeries}
    (h : tracker.rederiveMarkers deps target vanished timestamp = .ok markers) :
    AllSorted markers := by
  rw [SeriesTracker.rederiveMarkers] at h
  split at h
  · cases h
    exact allSorted_nil
  split at h
  · cases h
    exact allSorted_nil
  split at h
  · cases h
    exact allSorted_nil
  split at h
  · cases h
  · cases h
    exact allSorted_nil
  · next series hseries => exact rederiveFrom_sorted (parseBody_unique hseries) h

theorem scrapeFetched_sorted {deps : ScrapeDeps} {target : Target deps.relabel.engine}
    {startMs : Int64} {fetched : Except String ScrapeBody} {scraped : Scraped}
    (h : scrapeFetched deps target startMs fetched = .ok scraped) : AllSorted scraped.batch := by
  cases fetched with
  | error message =>
      cases h
      exact allSorted_nil
  | ok body =>
      rw [scrapeFetched] at h
      split at h
      · cases h
      · cases h
        exact allSorted_nil
      · next series hseries =>
          split at h
          · cases h
            exact allSorted_nil
          · obtain ⟨batch, hbatch, rfl⟩ := map_eq_ok.mp h
            exact finalizeBatch_sorted (parseBody_unique hseries) hbatch

/-! ## Report series -/

/-- `__name__` is one of the labels that the report series get besides it. -/
def NameTaken {E : Engine} (target : Target E) : Prop :=
  metricNameLabel ∈ target.labels.map Label.name ∨
    metricNameLabel ∈ target.externalLabels.map Label.name

theorem mem_names_addExternalLabels (labels externalLabels : List Label) (name : String) :
    name ∈ (addExternalLabels labels externalLabels).map Label.name ↔
      name ∈ labels.map Label.name ∨ name ∈ externalLabels.map Label.name := by
  induction externalLabels generalizing labels with
  | nil => simp [addExternalLabels]
  | cons e rest ih =>
      have hstep := ih (addIfAbsent labels e.name e.value)
      rw [addExternalLabels] at hstep
      rw [addExternalLabels, List.foldl_cons, hstep, addIfAbsent_eq_insertIfAbsent,
        Keyed.mem_map_insertIfAbsent, List.map_cons, List.mem_cons]
      tauto

/-- **A report series obeys the label rule exactly when nothing else is called `__name__`.** -/
theorem reportSeries_sorted_iff {E : Engine} {target : Target E} (htarget : UniqueNames target.labels)
    (startMs : Int64) (name : String) (value : F64) :
    StrictlySorted (reportSeries (sortLabels (addExternalLabels target.labels target.externalLabels))
      startMs name value).labels ↔ ¬ NameTaken target := by
  have hlabels := (htarget.addExternalLabels target.externalLabels).sortLabels
  rw [reportSeries, strictlySorted_sortLabels_iff, uniqueNames_cons, and_iff_left hlabels,
    ((sortLabels_perm _).map Label.name).mem_iff, mem_names_addExternalLabels]
  rfl

theorem reportBatch_sorted_iff {E : Engine} {target : Target E} (htarget : UniqueNames target.labels)
    (event : ScrapeEvent) (scraped : Scraped) :
    ∀ s ∈ reportBatch target event scraped, (StrictlySorted s.labels ↔ ¬ NameTaken target) := by
  intro s hs
  rw [reportBatch] at hs
  simp only [List.mem_cons, List.not_mem_nil, or_false] at hs
  rcases hs with rfl | rfl | rfl | rfl | rfl
  all_goals exact reportSeries_sorted_iff htarget _ _ _

/-! ## The loop -/

/-- What the loop knows of the report series after some rounds. -/
structure Reports {E : Engine} (target : Target E) (rounds : Nat) (state : LoopState) : Prop where
  tracker : state.tracker.isSome = target.trackStaleness
  empty : state.reportSeries = [] ↔ target.trackStaleness = false ∨ rounds = 0
  labels : ∀ labels ∈ state.reportSeries, (StrictlySorted labels ↔ ¬ NameTaken target)

theorem reports_init {E : Engine} (target : Target E) :
    Reports target 0 (LoopState.init target) where
  tracker := by
    rw [LoopState.init]
    cases target.trackStaleness <;> rfl
  empty := iff_of_true rfl (.inr rfl)
  labels := nofun

/-- One round. -/
theorem Reports.record {deps : ScrapeDeps} {target : Target deps.relabel.engine} {n : Nat}
    {state state' : LoopState} {outcome : ScrapeOutcome} {round : Round}
    (h : Reports target n state) (hreport : outcome.report ≠ [])
    (hlabels : ∀ s ∈ outcome.report, (StrictlySorted s.labels ↔ ¬ NameTaken target))
    (hseries : AllSorted outcome.series)
    (hrecord : state.record deps target outcome = .ok (round, state')) :
    Reports target (n + 1) state' ∧ AllSorted (round.series ++ round.markers) := by
  rw [LoopState.record] at hrecord
  cases htracker : state.tracker with
  | none =>
      rw [htracker] at hrecord
      cases hrecord
      have hoff : target.trackStaleness = false := by rw [← h.tracker, htracker]; rfl
      refine ⟨⟨h.tracker, ?_, h.labels⟩, allSorted_append.mpr ⟨hseries, allSorted_nil⟩⟩
      exact iff_of_true (h.empty.mpr (.inl hoff)) (.inl hoff)
  | some tracker =>
      rw [htracker] at hrecord
      obtain ⟨⟨markers, tracker'⟩, hadvance, heq⟩ := map_eq_ok.mp hrecord
      cases heq
      have hon : target.trackStaleness = true := by rw [← h.tracker, htracker]; rfl
      have hmarkers : AllSorted markers := by
        obtain ⟨ms, hms, heq⟩ := map_eq_ok.mp hadvance
        cases heq
        exact rederiveMarkers_sorted hms
      refine ⟨⟨hon.symm, ?_, ?_⟩, allSorted_append.mpr ⟨hseries, hmarkers⟩⟩
      · refine iff_of_false ?_ (by simp [hon])
        dsimp only
        split
        · simpa using hreport
        · next hne => simpa using hne
      · dsimp only
        split
        · intro labels hmem
          obtain ⟨s, hs, rfl⟩ := List.mem_map.mp hmem
          exact hlabels s hs
        · exact h.labels

/-- All rounds: by induction over the events, with `Reports` between the rounds. -/
theorem scrapeLoop_sorted {deps : ScrapeDeps} {target : Target deps.relabel.engine}
    (htarget : UniqueNames target.labels) {events : List ScrapeEvent} {n : Nat}
    {state state' : LoopState} {rounds : List Round} (h : Reports target n state)
    (hloop : scrapeLoop deps target state events = .ok (rounds, state')) :
    Reports target (n + events.length) state' ∧
      ∀ round ∈ rounds, AllSorted (round.series ++ round.markers) := by
  induction events generalizing n state rounds with
  | nil =>
      cases hloop
      exact ⟨h, nofun⟩
  | cons event rest ih =>
      rw [scrapeLoop] at hloop
      obtain ⟨outcome, houtcome, hloop⟩ := bind_eq_ok.mp hloop
      obtain ⟨⟨round, next⟩, hrecord, hloop⟩ := bind_eq_ok.mp hloop
      obtain ⟨⟨rounds', last⟩, hrest, hloop⟩ := bind_eq_ok.mp hloop
      cases hloop
      rw [scrapeOnce] at houtcome
      obtain ⟨scraped, hscraped, rfl⟩ := map_eq_ok.mp houtcome
      obtain ⟨hnext, hround⟩ := h.record (List.cons_ne_nil _ _)
        (reportBatch_sorted_iff htarget event scraped) (scrapeFetched_sorted hscraped) hrecord
      obtain ⟨hlast, hrounds⟩ := ih hnext hrest
      rw [List.length_cons, Nat.add_comm rest.length, ← Nat.add_assoc]
      exact ⟨hlast, List.forall_mem_cons.mpr ⟨hround, hrounds⟩⟩

/-- The markers of a target that is removed: those of its report series are the ones in question. -/
theorem Reports.removed_sorted_iff {deps : ScrapeDeps} {target : Target deps.relabel.engine}
    {n : Nat} {state : LoopState} {timestamp : Int64} {markers : List TimeSeries}
    (h : Reports target n state) (hremoved : state.removed deps target timestamp = .ok markers) :
    AllSorted markers ↔ ¬ (target.trackStaleness = true ∧ n ≠ 0 ∧ NameTaken target) := by
  rw [LoopState.removed] at hremoved
  cases htracker : state.tracker with
  | none =>
      rw [htracker] at hremoved
      cases hremoved
      have hoff : target.trackStaleness = false := by rw [← h.tracker, htracker]; rfl
      exact iff_of_true allSorted_nil (by simp [hoff])
  | some tracker =>
      rw [htracker] at hremoved
      obtain ⟨⟨drained, tracker'⟩, hdrain, rfl⟩ := map_eq_ok.mp hremoved
      have hon : target.trackStaleness = true := by rw [← h.tracker, htracker]; rfl
      have hdrained : AllSorted drained := by
        obtain ⟨ms, hms, heq⟩ := map_eq_ok.mp hdrain
        cases heq
        exact rederiveMarkers_sorted hms
      rw [allSorted_append, and_iff_right hdrained]
      have hmarkers : AllSorted (state.reportSeries.map (staleSeries · timestamp)) ↔
          ∀ labels ∈ state.reportSeries, StrictlySorted labels := List.forall_mem_map
      rw [hmarkers]
      cases hreports : state.reportSeries with
      | nil =>
          have hzero : n = 0 := (h.empty.mp hreports).resolve_left (by simp [hon])
          exact iff_of_true (fun _ h => (List.not_mem_nil h).elim) (fun hboth => hboth.2.1 hzero)
      | cons labels rest =>
          have hne : n ≠ 0 := by
            rintro rfl
            rw [h.empty.mpr (.inr rfl)] at hreports
            cases hreports
          have hall := h.labels
          rw [hreports] at hall
          constructor
          · rintro hsorted ⟨-, -, htaken⟩
            exact (hall labels List.mem_cons_self).mp (hsorted labels List.mem_cons_self) htaken
          · intro hnot l hl
            exact (hall l hl).mpr fun htaken => hnot ⟨hon, hne, htaken⟩

/-! ## Flushing -/

/-- **Write relabeling keeps the label rule.** -/
theorem flushBatch_sorted {deps : RelabelDeps} {rules : List (RelabelConfig deps.engine)}
    {batch encoded : List TimeSeries} (hbatch : AllSorted batch)
    (h : flushBatch deps rules batch = .ok encoded) : AllSorted encoded := by
  rw [flushBatch] at h
  split at h
  · cases h
    exact hbatch
  · induction batch generalizing encoded with
    | nil =>
        cases h
        exact allSorted_nil
    | cons series rest ih =>
        obtain ⟨hseries, hrest⟩ := List.forall_mem_cons.mp hbatch
        rw [relabelBatch] at h
        split at h
        · cases h
        · exact ih hrest h
        · next labels hlabels =>
            obtain ⟨encoded', hencoded', rfl⟩ := map_eq_ok.mp h
            refine List.forall_mem_cons.mpr ⟨?_, ih hrest hencoded'⟩
            exact strictlySorted_sortLabels_iff.mpr (hseries.uniqueNames.process hlabels)

/-! ## A target's life -/

/-- The markers of the end of a scrape loop: those of the removal, if its target is removed. -/
def LoopState.finalMarkers (deps : ScrapeDeps) (target : Target deps.relabel.engine)
    (state : LoopState) (removedMs : Option Int64) : Except ScrapePanic (List TimeSeries) :=
  match removedMs with
  | some timestamp => state.removed deps target timestamp
  | none => .ok []

/-- The scraped series and the staleness markers that a scrape loop hands to remote write, up to its
    target's removal if there is one. -/
def sentSeries (deps : ScrapeDeps) (target : Target deps.relabel.engine) (events : List ScrapeEvent)
    (removedMs : Option Int64) : Except ScrapePanic (List TimeSeries) := do
  let (rounds, state) ← scrapeLoop deps target (LoopState.init target) events
  let markers ← state.finalMarkers deps target removedMs
  .ok (rounds.flatMap (fun round => round.series ++ round.markers) ++ markers)

/-- **When the label rule holds of everything sent and of everything encoded**: unless a tracked
    target that was scraped is removed while `__name__` is a label of its own or an external one. -/
theorem sentSeries_sorted_iff {deps : ScrapeDeps} {target : Target deps.relabel.engine}
    {events : List ScrapeEvent} {removedMs : Option Int64} {sent : List TimeSeries}
    (htarget : UniqueNames target.labels)
    (h : sentSeries deps target events removedMs = .ok sent) :
    (AllSorted sent ∧ ∀ rules batch encoded, (∀ s ∈ batch, s ∈ sent) →
        flushBatch deps.relabel rules batch = .ok encoded → AllSorted encoded) ↔
      ¬ (target.trackStaleness = true ∧ events ≠ [] ∧ removedMs.isSome = true ∧
        NameTaken target) := by
  rw [sentSeries] at h
  obtain ⟨⟨rounds, state⟩, hloop, h⟩ := bind_eq_ok.mp h
  obtain ⟨markers, hmarkers, h⟩ := bind_eq_ok.mp h
  cases h
  obtain ⟨hreports, hrounds⟩ := scrapeLoop_sorted htarget (reports_init target) hloop
  rw [Nat.zero_add] at hreports
  have hsent : AllSorted (rounds.flatMap (fun round => round.series ++ round.markers) ++ markers) ↔
      AllSorted markers := by
    rw [allSorted_append, and_iff_right]
    intro s hs
    obtain ⟨round, hround, hs⟩ := List.mem_flatMap.mp hs
    exact hrounds round hround s hs
  have hflush : AllSorted (rounds.flatMap (fun round => round.series ++ round.markers) ++ markers) →
      ∀ rules batch encoded, (∀ s ∈ batch, s ∈ rounds.flatMap
          (fun round => round.series ++ round.markers) ++ markers) →
        flushBatch deps.relabel rules batch = .ok encoded → AllSorted encoded :=
    fun hall _ _ _ hmem hencoded => flushBatch_sorted (fun s hs => hall s (hmem s hs)) hencoded
  rw [and_iff_left_of_imp hflush, hsent]
  cases removedMs with
  | none =>
      cases hmarkers
      exact iff_of_true nofun (by simp)
  | some timestamp =>
      rw [hreports.removed_sorted_iff hmarkers]
      simp

/-- Four scrapes, then the removal: the external label is called otherwise. -/
theorem sentSeries_sorted_fourScrapes :
    ∃ sent, sentSeries literalDeps plainTarget fourScrapes (some 5000) = .ok sent ∧
      10 ≤ sent.length ∧ AllSorted sent := by
  obtain ⟨sent, hsent, hlength⟩ := Fallible.exists_ok_of_any
    (x := sentSeries literalDeps plainTarget fourScrapes (some 5000))
    (p := fun sent => decide (10 ≤ sent.length)) (by decide +kernel)
  refine ⟨sent, hsent, of_decide_eq_true hlength, ?_⟩
  refine ((sentSeries_sorted_iff (by decide) hsent).mpr ?_).1
  rintro ⟨-, -, -, htaken⟩
  revert htaken
  unfold NameTaken
  decide

/-- `plainTarget` with an external label `__name__`. -/
def renamedTarget : Target literalDeps.relabel.engine :=
  { plainTarget with externalLabels := [⟨metricNameLabel, "agent"⟩] }

/-- **The markers of the report series have `__name__` twice.** -/
theorem sentSeries_duplicates_name :
    ¬ ∀ (target : Target literalDeps.relabel.engine) (events : List ScrapeEvent)
      (removedMs : Option Int64) (sent : List TimeSeries), UniqueNames target.labels →
      sentSeries literalDeps target events removedMs = .ok sent → AllSorted sent := by
  intro h
  obtain ⟨sent, hsent, hunsorted⟩ := Fallible.exists_ok_of_any
    (x := sentSeries literalDeps renamedTarget fourScrapes (some 5000))
    (p := fun sent => !decide (AllSorted sent)) (by decide +kernel)
  have hsorted := h renamedTarget fourScrapes (some 5000) sent (by decide) hsent
  simp [hsorted] at hunsorted

end PromScrape
