import PromScrape.Proofs.FinalLabels
import PromScrape.Proofs.Staleness

set_option autoImplicit false

/-! # Markers and live series

The tracker compares series by what the exporter wrote, before any label is merged, relabeled or
added; a marker carries the label set after all that. So a marker can have the label set of a series
that is still there. It does exactly when the label pipeline merges a series that went away with one that did
not. -/

namespace PromScrape

open Fallible (mapM_eq_ok getElem?_of_forall₂)

/-- No marker of the round has the label set of a series sent at the scrape's own time. -/
def Round.MarksNoLive (round : Round) (startMs : Int64) : Prop :=
  ∀ marker ∈ round.markers, ∀ s ∈ round.series, s.sample.timestamp = startMs →
    marker.labels ≠ s.labels

instance (round : Round) (startMs : Int64) : Decidable (round.MarksNoLive startMs) :=
  inferInstanceAs (Decidable (∀ marker ∈ round.markers, ∀ s ∈ round.series,
    s.sample.timestamp = startMs → marker.labels ≠ s.labels))

/-- The target's label pipeline turns both raw label sets into one final label set. -/
def Merges (deps : RelabelDeps) (target : Target deps.engine) (raw raw' : List Label) : Prop :=
  ∃ labels, finalizeSeriesLabels deps raw target = .ok (some labels) ∧
    finalizeSeriesLabels deps raw' target = .ok (some labels)

/-- The pipeline merges no series that `previous` exposed and `current` no longer does with a series
of `current`. -/
def KeepsApart (deps : ScrapeDeps) (target : Target deps.relabel.engine)
    (previous current : ScrapeEvent) : Prop :=
  ∀ gone ∈ exposed deps target previous,
    (∀ live ∈ exposed deps target current, live.1 ≠ gone.1) →
      ∀ live ∈ exposed deps target current,
        ¬ Merges deps.relabel target gone.2.labels live.2.labels

/-- No label set occurs in two spellings in the two scrapes. -/
def NoneRespelled (deps : ScrapeDeps) (target : Target deps.relabel.engine)
    (previous current : ScrapeEvent) : Prop :=
  ∀ a ∈ exposed deps target previous ++ exposed deps target current,
    ∀ b ∈ exposed deps target previous ++ exposed deps target current,
      a.2.labels.Perm b.2.labels → a.1 = b.1

instance (deps : ScrapeDeps) (target : Target deps.relabel.engine)
    (previous current : ScrapeEvent) : Decidable (NoneRespelled deps target previous current) :=
  inferInstanceAs (Decidable (∀ a ∈ exposed deps target previous ++ exposed deps target current,
    ∀ b ∈ exposed deps target previous ++ exposed deps target current,
      a.2.labels.Perm b.2.labels → a.1 = b.1))

section

variable {deps : ScrapeDeps} {target : Target deps.relabel.engine}

/-! ## Two scrapes -/

theorem mem_emitted_of_exposed {event : ScrapeEvent} {x : Identity × TimeSeries}
    {labels : List Label} (hx : x ∈ exposed deps target event)
    (hfinal : finalizeSeriesLabels deps.relabel x.2.labels target = .ok (some labels)) :
    (x.1, labels) ∈ emitted deps target event :=
  mem_emitted.mpr ⟨x, hx, rfl, hfinal⟩

theorem exposed_of_mem_emitted {event : ScrapeEvent} {e : Identity × List Label}
    (h : e ∈ emitted deps target event) : ∃ x ∈ exposed deps target event, x.1 = e.1 :=
  (mem_emitted.mp h).imp fun _ hx => ⟨hx.1, hx.2.1⟩

/-- A stored entry has a marker when no emitted one has its identity. -/
theorem mem_naiveMarkers {previous : ScrapeEvent} {current : List (Identity × List Label)}
    {timestamp : Int64} {marker : TimeSeries} :
    marker ∈ (Store.of (emitted deps target previous)).markers current timestamp ↔
      ∃ e ∈ emitted deps target previous, (∀ e' ∈ current, e'.1 ≠ e.1) ∧
        staleSeries e.2 timestamp = marker := by
  have hunique : ∀ a ∈ emitted deps target previous, ∀ b ∈ emitted deps target previous,
      a.1 = b.1 → a = b := fun a ha b hb => emitted_unique ha hb
  simp only [Store.markers, List.mem_map, List.mem_filter, mem_storeOf hunique, and_assoc,
    Bool.not_eq_true', List.contains_eq_mem, decide_eq_false_iff_not, not_exists, not_and]

/-- Between two scrapes, the naive tracker marks no live series exactly when the pipeline keeps them
apart. -/
theorem marksNoLive_iff {previous current : ScrapeEvent} {outcome : ScrapeOutcome}
    (houtcome : scrapeOnce deps target current = .ok outcome) {round : Round}
    (hseries : round.series = outcome.series)
    (hmarkers : round.markers.Perm ((Store.of (emitted deps target previous)).markers
      (emitted deps target current) current.startMs)) :
    round.MarksNoLive current.startMs ↔ KeepsApart deps target previous current := by
  constructor
  · -- a merge makes the marker of `gone` carry the labels of `live`
    rintro hmarks gone hgone habsent live hlive ⟨labels, hfinal, hlabels⟩
    have hmarker : staleSeries labels current.startMs ∈ round.markers := by
      refine hmarkers.mem_iff.mpr (mem_naiveMarkers.mpr
        ⟨_, mem_emitted_of_exposed hgone hfinal, fun e he => ?_, rfl⟩)
      obtain ⟨x, hx, hid⟩ := exposed_of_mem_emitted he
      exact hid ▸ habsent x hx
    obtain ⟨s, hs, htime, -, heq⟩ :=
      (sent_iff houtcome).mpr ⟨_, mem_emitted_of_exposed hlive hlabels, rfl, rfl⟩
    exact hmarks _ hmarker s (hseries ▸ hs) htime heq.symm
  · intro hapart marker hmarker s hs htime heq
    obtain ⟨e, he, habsent, rfl⟩ := mem_naiveMarkers.mp (hmarkers.mem_iff.mp hmarker)
    obtain ⟨gone, hgone, hid, hfinal⟩ := mem_emitted.mp he
    obtain ⟨e', he', -, hlabels⟩ :=
      (sent_iff houtcome).mp ⟨s, hseries ▸ hs, htime, rfl, rfl⟩
    obtain ⟨live, hlive, -, hfinal'⟩ := mem_emitted.mp he'
    refine hapart gone hgone (fun x hx hsame => ?_) live hlive ⟨e.2, hfinal, ?_⟩
    · -- a series of the same identity has the same labels, so it would have been emitted
      have hraw : x.2.labels = gone.2.labels := by
        rw [(exposed_spec hx).2, (exposed_spec hgone).2, hsame]
      exact habsent _ (mem_emitted_of_exposed hx (hraw ▸ hfinal)) (hsame.trans hid)
    · rw [hfinal', hlabels]
      exact congrArg (fun l => Except.ok (some l)) heq.symm

/-- Without metric relabeling, series whose labels the target does not concern are merged only when
one is the other re-spelled. -/
theorem keepsApart_of_untouched {previous current : ScrapeEvent}
    (hrules : target.metricRelabelConfigs = [])
    (huntouched : ∀ x ∈ exposed deps target previous ++ exposed deps target current,
      Untouched deps.relabel target x.2.labels)
    (hspelling : NoneRespelled deps target previous current) :
    KeepsApart deps target previous current := by
  rintro gone hgone habsent live hlive ⟨labels, hfinal, hfinal'⟩
  have hgone' := List.mem_append_left (exposed deps target current) hgone
  have hlive' := List.mem_append_right (exposed deps target previous) hlive
  have hperm := perm_of_finalizeSeriesLabels_eq hrules (huntouched gone hgone')
    (huntouched live hlive') hfinal hfinal'
  exact habsent live hlive (hspelling gone hgone' live hlive' hperm).symm

/-! ## Runs -/

/-- The naive tracker's markers depend on the last two scrapes alone. -/
theorem naiveLoop_getElem? {events : List ScrapeEvent} :
    ∀ {store : Store} {k : Nat} {previous current : ScrapeEvent}, events[k]? = some previous →
      events[k + 1]? = some current →
        (naiveLoop deps target store events).1[k + 1]? =
          some ((Store.of (emitted deps target previous)).markers (emitted deps target current)
            current.startMs) := by
  induction events with
  | nil => nofun
  | cons event rest ih =>
      intro store k previous current hprevious hcurrent
      rw [naiveLoop, List.getElem?_cons_succ]
      rw [List.getElem?_cons_succ] at hcurrent
      cases k with
      | zero =>
          cases hprevious
          cases rest with
          | nil => cases hcurrent
          | cons next rest =>
              cases hcurrent
              rfl
      | succ k => exact ih hprevious hcurrent

/-- **A live series is never marked stale in a round exactly when the label pipeline keeps what went
away apart from what is there**, in every round of every run. -/
theorem scrapeLoop_marksNoLive_iff {events : List ScrapeEvent} {outcomes : List ScrapeOutcome}
    (htrack : target.trackStaleness = true) (hsnappy : RoundTrips deps events)
    (hdistinct : DistinctHashes deps target events)
    (houtcomes : events.mapM (scrapeOnce deps target) = .ok outcomes) :
    ∃ rounds state,
      scrapeLoop deps target (LoopState.init target) events = .ok (rounds, state) ∧
        rounds.length = events.length ∧
        ∀ {k : Nat} {previous current : ScrapeEvent} {round : Round},
          events[k]? = some previous → events[k + 1]? = some current →
            rounds[k + 1]? = some round →
              (round.MarksNoLive current.startMs ↔ KeepsApart deps target previous current) := by
  have hinit : (LoopState.init target).tracker = some SeriesTracker.default := by
    rw [LoopState.init, if_pos htrack]
  obtain ⟨rounds, state, -, -, hloop, hagrees, -⟩ :=
    scrapeLoop_tracks htrack hsnappy hdistinct (fun _ h => h) hinit (tracks_default events)
      houtcomes
  have hscrapes := mapM_eq_ok.mp houtcomes
  have hlength : rounds.length = outcomes.length := by
    simpa using congrArg List.length hagrees.series_eq
  refine ⟨rounds, state, hloop, hlength.trans hscrapes.length_eq.symm, ?_⟩
  intro k previous current round hprevious hcurrent hround
  obtain ⟨outcome, houtcome⟩ : ∃ outcome, outcomes[k + 1]? = some outcome :=
    ⟨_, List.getElem?_eq_getElem (hlength ▸ (List.getElem?_eq_some_iff.mp hround).1)⟩
  refine marksNoLive_iff (getElem?_of_forall₂ hscrapes hcurrent houtcome) ?_
    (getElem?_of_forall₂ hagrees.markers_perm hround (naiveLoop_getElem? hprevious hcurrent))
  have hseries := congrArg (·[k + 1]?) hagrees.series_eq
  simpa [hround, houtcome] using hseries

end

theorem scrapeLoop_marksNoLive_iff_fourScrapes :
    ∃ rounds state,
      scrapeLoop literalDeps plainTarget (LoopState.init plainTarget) fourScrapes =
          .ok (rounds, state) ∧
        rounds.length = 4 ∧
        ∀ round, rounds[2]? = some round →
          (round.MarksNoLive 3000 ↔
            KeepsApart literalDeps plainTarget (textScrape 2000 "a 3\nb 4\n")
              (textScrape 3000 "a 5\nb 6 9\n")) := by
  obtain ⟨outcomes, houtcomes, -⟩ := Fallible.exists_ok_of_any (p := fun _ => true)
    (x := fourScrapes.mapM (scrapeOnce literalDeps plainTarget)) (by decide +kernel)
  obtain ⟨rounds, state, hloop, hlength, hiff⟩ :=
    scrapeLoop_marksNoLive_iff rfl roundTrips_fourScrapes
      (by unfold DistinctHashes; decide +kernel) houtcomes
  exact ⟨rounds, state, hloop, hlength, fun round hround => hiff (k := 1) rfl rfl hround⟩

/-! ## A dropped label -/

/-- The plain target with one rule: `labeldrop` of `x`. -/
def dropTarget : Target literalDeps.relabel.engine :=
  { plainTarget with
    metricRelabelConfigs :=
      ((AnchoredRegex.new "x").map fun regex => { regex := regex, action := .labelDrop }).toList }

/-- Both scrapes send one series and its label set is the same, but the tracker sees one series
vanish and another appear. -/
theorem live_series_marked_stale :
    let previous := textScrape 1000 "m\x7bx=\"1\"\x7d 1\n"
    let current := textScrape 2000 "m\x7bx=\"2\"\x7d 1\n"
    NoneRespelled literalDeps dropTarget previous current ∧
      ∃ rounds state,
        scrapeLoop literalDeps dropTarget (LoopState.init dropTarget) [previous, current] =
            .ok (rounds, state) ∧
          ∃ round, rounds[1]? = some round ∧ ¬ round.MarksNoLive 2000 := by
  intro previous current
  refine ⟨by decide +kernel, ?_⟩
  have hrun : (scrapeLoop literalDeps dropTarget (LoopState.init dropTarget)
      [previous, current]).toOption.any (fun result =>
        result.1[1]?.any fun round => !decide (round.MarksNoLive 2000)) = true := by
    decide +kernel
  obtain ⟨⟨rounds, state⟩, hloop, hcheck⟩ := Fallible.exists_ok_of_any hrun
  obtain ⟨round, hround, hmarks⟩ := (Option.any_eq_true _ _).mp hcheck
  exact ⟨rounds, state, hloop, round, hround, by simpa using hmarks⟩

end PromScrape
