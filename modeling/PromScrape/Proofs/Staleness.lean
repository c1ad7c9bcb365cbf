import PromScrape.Library.Snappy
import PromScrape.Proofs.Relabel
import PromScrape.Proofs.SeriesIdentity

set_option autoImplicit false

/-! # Staleness tracking from one retained body

The tracker against the naive one. A retained body re-parses to the identities its scrape emitted,
and the body is replaced whenever the set of hashes changes; so, as long as hashes tell identities
apart, the body in memory always answers for the label sets of the last scrape, however old it is. -/

namespace PromScrape

open Utf8 (utf8Bytes)
open Fallible (bind_eq_ok map_eq_ok)
open SortedSearch (sortDedup binarySearch binarySearch_eq_some_iff binarySearch_isNone_iff
  mem_sortDedup pairwise_sortDedup)
open Snappy (compressLiteral decompressLiteral decompressLiteral_of_compressLiteral)

section

variable {deps : ScrapeDeps} {target : Target deps.relabel.engine}

/-! ## What a scrape gives -/

/-- A parsed series as it is sent, unless it is dropped. -/
def finalSeries (deps : ScrapeDeps) (target : Target deps.relabel.engine) (s : TimeSeries) :
    Option TimeSeries :=
  match finalizeSeriesLabels deps.relabel s.labels target with
  | .ok (some labels) => some { s with labels := labels }
  | _ => none

theorem finalSeries_eq_some {s t : TimeSeries} :
    finalSeries deps target s = some t ↔
      ∃ labels, finalizeSeriesLabels deps.relabel s.labels target = .ok (some labels) ∧
        { s with labels := labels } = t := by
  rw [finalSeries]
  split
  · next labels h => simp [h]
  · next h => exact ⟨nofun, fun ⟨labels, hlabels, _⟩ => (h labels hlabels).elim⟩

theorem finalized_eq_some {x : Identity × TimeSeries} {e : Identity × List Label} :
    finalized deps target x = some e ↔
      x.1 = e.1 ∧ finalizeSeriesLabels deps.relabel x.2.labels target = .ok (some e.2) := by
  obtain ⟨i, l⟩ := e
  rw [finalized]
  split
  · next labels h => simp [h]
  · next h => exact ⟨nofun, fun ⟨_, hlabels⟩ => (h l hlabels).elim⟩

/-- A batch that is built has no faulting series in it and leaves out the dropped ones. -/
theorem finalizeBatch_eq_ok {series : List TimeSeries} : ∀ {batch : List TimeSeries},
    finalizeBatch deps.relabel target series = .ok batch →
      (∀ s ∈ series, ∃ result, finalizeSeriesLabels deps.relabel s.labels target = .ok result) ∧
        batch = series.filterMap (finalSeries deps target) := by
  induction series with
  | nil =>
      intro batch h
      cases h
      exact ⟨nofun, rfl⟩
  | cons s rest ih =>
      intro batch h
      rw [finalizeBatch] at h
      rw [List.filterMap_cons, finalSeries]
      split at h
      · cases h
      · next hdrop =>
          obtain ⟨hrest, rfl⟩ := ih h
          rw [hdrop]
          exact ⟨List.forall_mem_cons.mpr ⟨⟨_, hdrop⟩, hrest⟩, rfl⟩
      · next labels hkeep =>
          obtain ⟨batch', hbatch, rfl⟩ := map_eq_ok.mp h
          obtain ⟨hrest, rfl⟩ := ih hbatch
          rw [hkeep]
          exact ⟨List.forall_mem_cons.mpr ⟨⟨_, hkeep⟩, hrest⟩, rfl⟩

/-- A body whose series were sent. -/
structure Sent (deps : ScrapeDeps) (target : Target deps.relabel.engine) (event : ScrapeEvent)
    (body : ScrapeBody) (series : List TimeSeries) : Prop where
  parsed : parseBody deps target body.bytes body.format event.startMs =
    .ok (.ok ((identified deps target body event.startMs).map Prod.snd))
  total : ∀ x ∈ identified deps target body event.startMs,
    ∃ result, finalizeSeriesLabels deps.relabel x.2.labels target = .ok result
  exposed_eq : exposed deps target event =
    (identified deps target body event.startMs).filter (·.2.sample.timestamp == event.startMs)
  series_eq : series =
    ((identified deps target body event.startMs).map Prod.snd).filterMap (finalSeries deps target)

/-- A scrape sends nothing and retains nothing, or it sends the series of its body. -/
theorem scrapeOnce_eq_ok {event : ScrapeEvent} {outcome : ScrapeOutcome}
    (h : scrapeOnce deps target event = .ok outcome) :
    outcome.startMs = event.startMs ∧
      ((outcome.series = [] ∧ outcome.retainedBody = none ∧ exposed deps target event = []) ∨
        ∃ body, event.fetched = .ok body ∧ Sent deps target event body outcome.series ∧
          outcome.retainedBody = if target.trackStaleness then some body else none) := by
  rw [scrapeOnce] at h
  obtain ⟨scraped, hscraped, rfl⟩ := map_eq_ok.mp h
  refine ⟨rfl, ?_⟩
  rw [scrapeFetched.eq_def] at hscraped
  cases hfetched : event.fetched with
  | error message =>
      rw [hfetched] at hscraped
      cases hscraped
      exact .inl ⟨rfl, rfl, by rw [exposed, hfetched]⟩
  | ok body =>
      rw [hfetched] at hscraped
      dsimp only at hscraped
      have hidentified := parseBody_identified deps target body event.startMs
      cases hparse : parseBody deps target body.bytes body.format event.startMs with
      | error panic =>
          rw [hparse] at hidentified
          exact hidentified.elim
      | ok result =>
          rw [hparse] at hidentified hscraped
          cases result with
          | error e =>
              -- a body that does not parse is one whose series all vanished
              cases hscraped
              refine .inl ⟨rfl, rfl, ?_⟩
              dsimp only at hidentified
              rw [exposed, hfetched]
              simp only [hidentified, List.filter_nil, ite_self]
          | ok series =>
              dsimp only at hidentified hscraped
              have hlength : (identified deps target body event.startMs).length = series.length := by
                rw [← hidentified, List.length_map]
              split at hscraped
              · next hlimit =>
                  cases hscraped
                  refine .inl ⟨rfl, rfl, ?_⟩
                  rw [exposed, hfetched]
                  dsimp only
                  rw [hlength, if_pos hlimit]
              · next hlimit =>
                  obtain ⟨batch, hbatch, rfl⟩ := map_eq_ok.mp hscraped
                  obtain ⟨htotal, rfl⟩ := finalizeBatch_eq_ok hbatch
                  refine .inr ⟨body, rfl, ?_, rfl⟩
                  exact {
                    parsed := by rw [hparse, hidentified]
                    total := fun x hx => htotal x.2 (hidentified ▸ List.mem_map_of_mem hx)
                    exposed_eq := by
                      rw [exposed, hfetched]
                      dsimp only
                      rw [hlength, if_neg hlimit]
                    series_eq := by rw [hidentified] }

theorem exposed_spec {event : ScrapeEvent} {x : Identity × TimeSeries}
    (h : x ∈ exposed deps target event) :
    x.2.identityHash = x.1.hash ∧ x.2.labels = x.1.labels := by
  rw [exposed] at h
  split at h
  · cases h
  · dsimp only at h
    split at h
    · cases h
    · exact identified_spec (List.mem_filter.mp h).1

theorem mem_emitted {event : ScrapeEvent} {e : Identity × List Label} :
    e ∈ emitted deps target event ↔
      ∃ x ∈ exposed deps target event, x.1 = e.1 ∧
        finalizeSeriesLabels deps.relabel x.2.labels target = .ok (some e.2) := by
  simp only [emitted, List.mem_filterMap, finalized_eq_some]

/-- The final labels follow from the identity. -/
theorem finalize_of_mem_emitted {event : ScrapeEvent} {e : Identity × List Label}
    (h : e ∈ emitted deps target event) :
    finalizeSeriesLabels deps.relabel e.1.labels target = .ok (some e.2) := by
  obtain ⟨x, hx, hid, hfinal⟩ := mem_emitted.mp h
  rw [← hid, ← (exposed_spec hx).2, hfinal]

theorem emitted_unique {event event' : ScrapeEvent} {e e' : Identity × List Label}
    (h : e ∈ emitted deps target event) (h' : e' ∈ emitted deps target event')
    (hid : e.1 = e'.1) : e = e' := by
  have hfinal := finalize_of_mem_emitted h
  rw [hid, finalize_of_mem_emitted h'] at hfinal
  exact Prod.ext hid (Option.some.inj (Except.ok.inj hfinal)).symm

/-- The series sent at the scrape's own time, as the tracker sees them. -/
theorem sent_iff {event : ScrapeEvent} {outcome : ScrapeOutcome}
    (h : scrapeOnce deps target event = .ok outcome) {hash : UInt64} {labels : List Label} :
    (∃ s ∈ outcome.series, s.sample.timestamp = event.startMs ∧ s.identityHash = hash ∧
        s.labels = labels) ↔
      ∃ e ∈ emitted deps target event, e.1.hash = hash ∧ e.2 = labels := by
  obtain ⟨-, ⟨hseries, -, hexposed⟩ | ⟨body, -, hsent, -⟩⟩ := scrapeOnce_eq_ok h
  · rw [hseries, emitted, hexposed]
    simp
  · constructor
    · rintro ⟨s, hs, htime, rfl, rfl⟩
      rw [hsent.series_eq] at hs
      obtain ⟨_, hmem, hsome⟩ := List.mem_filterMap.mp hs
      obtain ⟨x, hx, rfl⟩ := List.mem_map.mp hmem
      obtain ⟨labels, hfinal, rfl⟩ := finalSeries_eq_some.mp hsome
      have hexposed : x ∈ exposed deps target event := by
        rw [hsent.exposed_eq]
        exact List.mem_filter.mpr ⟨hx, beq_iff_eq.mpr htime⟩
      exact ⟨(x.1, labels), mem_emitted.mpr ⟨x, hexposed, rfl, hfinal⟩,
        (exposed_spec hexposed).1.symm, rfl⟩
    · rintro ⟨e, he, rfl, rfl⟩
      obtain ⟨x, hexposed, hid, hfinal⟩ := mem_emitted.mp he
      have hhash := (exposed_spec hexposed).1
      rw [hsent.exposed_eq] at hexposed
      obtain ⟨hx, htime⟩ := List.mem_filter.mp hexposed
      refine ⟨{ x.2 with labels := e.2 }, ?_, beq_iff_eq.mp htime, hid ▸ hhash, rfl⟩
      rw [hsent.series_eq]
      exact List.mem_filterMap.mpr
        ⟨x.2, List.mem_map_of_mem hx, finalSeries_eq_some.mpr ⟨e.2, hfinal, rfl⟩⟩

/-- The tracker's hashes after a scrape are those of the identities it emitted. -/
theorem currentHashes_eq {event : ScrapeEvent} {outcome : ScrapeOutcome}
    (h : scrapeOnce deps target event = .ok outcome) :
    currentHashes outcome.series event.startMs =
      sortDedup ((emitted deps target event).map (·.1.hash)) := by
  refine SortedSearch.eq_of_mem_iff (pairwise_sortDedup _) (pairwise_sortDedup _) fun hash => ?_
  rw [currentHashes, mem_sortDedup, mem_sortDedup, List.mem_map, List.mem_map]
  constructor
  · rintro ⟨s, hs, rfl⟩
    obtain ⟨hs, htime⟩ := List.mem_filter.mp hs
    obtain ⟨e, he, hhash, -⟩ := (sent_iff h).mp ⟨s, hs, beq_iff_eq.mp htime, rfl, rfl⟩
    exact ⟨e, he, hhash⟩
  · rintro ⟨e, he, rfl⟩
    obtain ⟨s, hs, htime, hhash, -⟩ := (sent_iff h).mpr ⟨e, he, rfl, rfl⟩
    exact ⟨s, List.mem_filter.mpr ⟨hs, beq_iff_eq.mpr htime⟩, hhash⟩

/-! ## Re-deriving -/

/-- A hash that is to be given a marker and has not been yet. -/
def Pending (vanished : List UInt64) (consumed : List Bool) (hash : UInt64) : Prop :=
  ∃ k : Nat, vanished[k]? = some hash ∧ consumed[k]? ≠ some true

section

variable {vanished : List UInt64} {consumed : List Bool} {index : Nat} {hash other : UInt64}

theorem index_unique (hsorted : vanished.Pairwise (· < ·)) {k : Nat}
    (hindex : vanished[index]? = some hash) (hk : vanished[k]? = some hash) : k = index := by
  have h := (binarySearch_eq_some_iff hsorted).mpr hk
  rw [(binarySearch_eq_some_iff hsorted).mpr hindex] at h
  exact (Option.some.inj h).symm

theorem pending_iff (hsorted : vanished.Pairwise (· < ·)) (hindex : vanished[index]? = some hash) :
    Pending vanished consumed hash ↔ consumed[index]? ≠ some true := by
  constructor
  · rintro ⟨k, hk, hpending⟩
    rwa [index_unique hsorted hindex hk] at hpending
  · intro hpending
    exact ⟨index, hindex, hpending⟩

theorem pending_set (hsorted : vanished.Pairwise (· < ·)) (hindex : vanished[index]? = some hash)
    (hlength : consumed.length = vanished.length) :
    Pending vanished (consumed.set index true) other ↔
      Pending vanished consumed other ∧ other ≠ hash := by
  have hlt : index < consumed.length := hlength ▸ (List.getElem?_eq_some_iff.mp hindex).1
  constructor
  · rintro ⟨k, hk, hpending⟩
    rw [List.getElem?_set] at hpending
    by_cases heq : index = k
    · rw [if_pos heq, if_pos hlt] at hpending
      exact absurd rfl hpending
    · rw [if_neg heq] at hpending
      refine ⟨⟨k, hk, hpending⟩, ?_⟩
      rintro rfl
      exact heq (index_unique hsorted hindex hk).symm
  · rintro ⟨⟨k, hk, hpending⟩, hne⟩
    refine ⟨k, hk, ?_⟩
    rwa [List.getElem?_set, if_neg]
    rintro rfl
    rw [hindex] at hk
    exact hne (Option.some.inj hk).symm

theorem pending_init : Pending vanished (vanished.map fun _ => false) hash ↔ hash ∈ vanished := by
  rw [Pending, List.mem_iff_getElem?]
  refine exists_congr fun k => and_iff_left ?_
  rw [List.getElem?_map]
  cases vanished[k]? <;> simp

end

/-- The entries that a parsed body at `startMs` gives. -/
def survivors (deps : ScrapeDeps) (target : Target deps.relabel.engine) (startMs : Int64)
    (items : List (Identity × TimeSeries)) : List (Identity × List Label) :=
  (items.filter (·.2.sample.timestamp == startMs)).filterMap (finalized deps target)

theorem mem_survivors_cons {startMs : Int64} {x : Identity × TimeSeries}
    {rest : List (Identity × TimeSeries)} {e : Identity × List Label} :
    e ∈ survivors deps target startMs (x :: rest) ↔
      (x.2.sample.timestamp = startMs ∧ finalized deps target x = some e) ∨
        e ∈ survivors deps target startMs rest := by
  simp only [survivors, List.mem_filterMap, List.mem_filter, List.mem_cons, beq_iff_eq]
  constructor
  · rintro ⟨y, ⟨rfl | hy, htime⟩, hfinal⟩
    · exact .inl ⟨htime, hfinal⟩
    · exact .inr ⟨y, ⟨hy, htime⟩, hfinal⟩
  · rintro (⟨htime, hfinal⟩ | ⟨y, ⟨hy, htime⟩, hfinal⟩)
    · exact ⟨x, ⟨.inl rfl, htime⟩, hfinal⟩
    · exact ⟨y, ⟨.inr hy, htime⟩, hfinal⟩

/-- What the loop gives for the series of `items`: a marker for each of `entries`, which are the
survivors whose hash is pending. -/
structure Rederives (deps : ScrapeDeps) (target : Target deps.relabel.engine)
    (startMs : Int64) (vanished : List UInt64) (timestamp : Int64)
    (items : List (Identity × TimeSeries)) (consumed : List Bool)
    (entries : List (Identity × List Label)) : Prop where
  loop_eq : rederiveFrom deps.relabel target startMs vanished timestamp (items.map Prod.snd)
    consumed = .ok (entries.map fun e => staleSeries e.2 timestamp)
  nodup : entries.Nodup
  mem_iff : ∀ e, e ∈ entries ↔
    e ∈ survivors deps target startMs items ∧ Pending vanished consumed e.1.hash

section

variable {startMs timestamp : Int64} {vanished : List UInt64} {consumed : List Bool}
  {x : Identity × TimeSeries} {items : List (Identity × TimeSeries)}
  {entries : List (Identity × List Label)}

/-- A series without a pending entry changes nothing. -/
theorem Rederives.skip
    (h : Rederives deps target startMs vanished timestamp items consumed entries)
    (hloop : rederiveFrom deps.relabel target startMs vanished timestamp
        ((x :: items).map Prod.snd) consumed =
      rederiveFrom deps.relabel target startMs vanished timestamp (items.map Prod.snd) consumed)
    (hnone : ∀ e, x.2.sample.timestamp = startMs → finalized deps target x = some e →
      ¬ Pending vanished consumed e.1.hash) :
    Rederives deps target startMs vanished timestamp (x :: items) consumed entries where
  loop_eq := hloop.trans h.loop_eq
  nodup := h.nodup
  mem_iff e := by
    rw [h.mem_iff, mem_survivors_cons]
    constructor
    · rintro ⟨he, hpending⟩
      exact ⟨.inr he, hpending⟩
    · rintro ⟨⟨htime, hfinal⟩ | he, hpending⟩
      · exact (hnone e htime hfinal hpending).elim
      · exact ⟨he, hpending⟩

/-- A series with a pending entry takes it, and no later one does. -/
theorem Rederives.take (hsorted : vanished.Pairwise (· < ·)) {index : Nat} {labels : List Label}
    (h : Rederives deps target startMs vanished timestamp items (consumed.set index true) entries)
    (hloop : rederiveFrom deps.relabel target startMs vanished timestamp
        ((x :: items).map Prod.snd) consumed =
      (rederiveFrom deps.relabel target startMs vanished timestamp (items.map Prod.snd)
        (consumed.set index true)).map (staleSeries labels timestamp :: ·))
    (hlength : consumed.length = vanished.length) (hindex : vanished[index]? = some x.1.hash)
    (hconsumed : consumed[index]? ≠ some true) (htime : x.2.sample.timestamp = startMs)
    (hfinal : finalized deps target x = some (x.1, labels))
    (hunique : ∀ e ∈ survivors deps target startMs items, e.1.hash = x.1.hash →
      e = (x.1, labels)) :
    Rederives deps target startMs vanished timestamp (x :: items) consumed
      ((x.1, labels) :: entries) where
  loop_eq := by
    rw [hloop, h.loop_eq]
    rfl
  nodup := by
    refine List.nodup_cons.mpr ⟨fun hin => ?_, h.nodup⟩
    obtain ⟨-, hpending⟩ := (h.mem_iff _).mp hin
    exact ((pending_set hsorted hindex hlength).mp hpending).2 rfl
  mem_iff e := by
    rw [List.mem_cons, h.mem_iff, pending_set hsorted hindex hlength, mem_survivors_cons, hfinal,
      Option.some.injEq]
    constructor
    · rintro (rfl | ⟨he, hpending, -⟩)
      · exact ⟨.inl ⟨htime, rfl⟩, (pending_iff hsorted hindex).mpr hconsumed⟩
      · exact ⟨.inr he, hpending⟩
    · rintro ⟨⟨-, rfl⟩ | he, hpending⟩
      · exact .inl rfl
      · by_cases heq : e.1.hash = x.1.hash
        · exact .inl (hunique e he heq)
        · exact .inr ⟨he, hpending, heq⟩

end

/-- The loop writes one marker for each entry whose hash is pending. -/
theorem rederiveFrom_spec {vanished : List UInt64} (hsorted : vanished.Pairwise (· < ·))
    (startMs timestamp : Int64) (items : List (Identity × TimeSeries)) :
    ∀ consumed : List Bool, consumed.length = vanished.length →
      (∀ x ∈ items, x.2.identityHash = x.1.hash) →
      (∀ x ∈ items, ∃ result,
        finalizeSeriesLabels deps.relabel x.2.labels target = .ok result) →
      (∀ a ∈ survivors deps target startMs items, ∀ b ∈ survivors deps target startMs items,
        a.1.hash = b.1.hash → a = b) →
      ∃ entries, Rederives deps target startMs vanished timestamp items consumed entries := by
  induction items with
  | nil =>
      intro consumed _ _ _ _
      exact ⟨[], rfl, List.nodup_nil, by simp [survivors]⟩
  | cons x rest ih =>
      intro consumed hlength hhash htotal hunique
      obtain ⟨hx, hhash⟩ := List.forall_mem_cons.mp hhash
      obtain ⟨⟨result, hresult⟩, htotal⟩ := List.forall_mem_cons.mp htotal
      have ih (flags : List Bool) (hflags : flags.length = vanished.length) :=
        ih flags hflags hhash htotal fun a ha b hb =>
          hunique a (mem_survivors_cons.mpr (.inr ha)) b (mem_survivors_cons.mpr (.inr hb))
      obtain ⟨entries, hrest⟩ := ih consumed hlength
      -- a timestamp of the body's own: the series was never tracked
      by_cases htime : x.2.sample.timestamp = startMs
      swap
      · refine ⟨entries, hrest.skip ?_ fun e h => absurd h htime⟩
        rw [List.map_cons, rederiveFrom, if_pos htime]
      cases hsearch : binarySearch vanished x.2.identityHash with
      | none =>
          refine ⟨entries, hrest.skip ?_ ?_⟩
          · rw [List.map_cons, rederiveFrom, if_neg (not_not.mpr htime), hsearch]
          · rintro e - hfinal ⟨k, hk, -⟩
            rw [binarySearch_isNone_iff hsorted, hx, (finalized_eq_some.mp hfinal).1] at hsearch
            exact hsearch (List.mem_of_getElem? hk)
      | some index =>
          have hindex : vanished[index]? = some x.1.hash :=
            hx ▸ (binarySearch_eq_some_iff hsorted).mp hsearch
          -- an earlier series of the body took this hash
          by_cases hconsumed : consumed[index]? = some true
          · refine ⟨entries, hrest.skip ?_ ?_⟩
            · rw [List.map_cons, rederiveFrom, if_neg (not_not.mpr htime), hsearch]
              exact if_pos hconsumed
            · rintro e - hfinal hpending
              rw [← (finalized_eq_some.mp hfinal).1, pending_iff hsorted hindex] at hpending
              exact hpending hconsumed
          cases result with
          | none =>
              -- relabeling drops it now, as it did when it was scraped
              refine ⟨entries, hrest.skip ?_ ?_⟩
              · rw [List.map_cons, rederiveFrom, if_neg (not_not.mpr htime), hsearch]
                dsimp only
                rw [if_neg hconsumed, hresult]
              · rintro e - hfinal -
                have hkept := (finalized_eq_some.mp hfinal).2
                rw [hresult] at hkept
                cases hkept
          | some labels =>
              have hfinal : finalized deps target x = some (x.1, labels) :=
                finalized_eq_some.mpr ⟨rfl, hresult⟩
              -- the entry is consumed, so the hypothesis is needed at other flags
              obtain ⟨entries', htake⟩ :=
                ih (consumed.set index true) ((List.length_set ..).trans hlength)
              refine ⟨_, htake.take hsorted ?_ hlength hindex hconsumed htime hfinal ?_⟩
              · rw [List.map_cons, rederiveFrom, if_neg (not_not.mpr htime), hsearch]
                dsimp only
                rw [if_neg hconsumed, hresult]
              · exact fun e he => hunique e (mem_survivors_cons.mpr (.inr he)) _
                  (mem_survivors_cons.mpr (.inl ⟨htime, hfinal⟩))

/-! ## The invariant -/

/-- The retained scrape is that of `event`, and its body re-parses. -/
structure Retains (deps : ScrapeDeps) (target : Target deps.relabel.engine)
    (retained : RetainedScrape) (event : ScrapeEvent) (body : ScrapeBody)
    (series : List TimeSeries) : Prop where
  sent : Sent deps target event body series
  decompressed : deps.decompress retained.compressed = some body.bytes
  format_eq : retained.format = body.format
  startMs_eq : retained.startMs = event.startMs

/-- The tracker in a run over `events` whose last scrape emitted `entries`: the hashes are those of
the entries, and unless there are none, the retained body is that of a scrape of the run that emitted
the same entries. -/
structure Tracks (deps : ScrapeDeps) (target : Target deps.relabel.engine)
    (events : List ScrapeEvent) (tracker : SeriesTracker)
    (entries : List (Identity × List Label)) : Prop where
  hashes_eq : tracker.hashes = sortDedup (entries.map (·.1.hash))
  emitted_by : ∀ e ∈ entries, ∃ event ∈ events, e ∈ emitted deps target event
  retained : entries ≠ [] → ∃ retained event body series, tracker.retained = some retained ∧
    event ∈ events ∧ Retains deps target retained event body series ∧
      ∀ e, e ∈ entries ↔ e ∈ emitted deps target event

theorem tracks_default (events : List ScrapeEvent) :
    Tracks deps target events SeriesTracker.default [] where
  hashes_eq := rfl
  emitted_by := nofun
  retained h := absurd rfl h

section

variable {events : List ScrapeEvent} {tracker : SeriesTracker}
  {entries : List (Identity × List Label)}

theorem Tracks.mem_hashes (h : Tracks deps target events tracker entries) {hash : UInt64} :
    hash ∈ tracker.hashes ↔ ∃ e ∈ entries, e.1.hash = hash := by
  rw [h.hashes_eq, mem_sortDedup, List.mem_map]

/-- In a run without hash collisions an entry is known by its hash. -/
theorem DistinctHashes.eq_of_hash (hdistinct : DistinctHashes deps target events)
    {a b : Identity × List Label} (ha : ∃ event ∈ events, a ∈ emitted deps target event)
    (hb : ∃ event ∈ events, b ∈ emitted deps target event) (hhash : a.1.hash = b.1.hash) :
    a = b := by
  obtain ⟨event, hevent, ha⟩ := ha
  obtain ⟨event', hevent', hb⟩ := hb
  exact emitted_unique ha hb (hdistinct event hevent event' hevent' a ha b hb hhash)

/-- Re-deriving gives a marker for each entry of the last scrape whose hash is asked for. -/
theorem Tracks.rederiveMarkers (h : Tracks deps target events tracker entries)
    (hdistinct : DistinctHashes deps target events) {vanished : List UInt64}
    (hsorted : vanished.Pairwise (· < ·)) (hsubset : ∀ hash ∈ vanished, hash ∈ tracker.hashes)
    (timestamp : Int64) :
    ∃ rederived : List (Identity × List Label),
      tracker.rederiveMarkers deps target vanished timestamp =
          .ok (rederived.map fun e => staleSeries e.2 timestamp) ∧
        rederived.Nodup ∧ ∀ e, e ∈ rederived ↔ e ∈ entries ∧ e.1.hash ∈ vanished := by
  rw [SeriesTracker.rederiveMarkers]
  cases vanished with
  | nil => exact ⟨[], rfl, List.nodup_nil, by simp⟩
  | cons hash rest =>
      rw [List.isEmpty_cons, if_neg Bool.false_ne_true]
      -- a pending hash has an entry, so there is a retained body to re-parse
      obtain ⟨e, he, -⟩ := h.mem_hashes.mp (hsubset hash List.mem_cons_self)
      obtain ⟨retained, event, body, series, hretained, hevent, hretains, hmem⟩ :=
        h.retained (List.ne_nil_of_mem he)
      have hemitted : emitted deps target event = survivors deps target event.startMs
          (identified deps target body event.startMs) := by
        rw [emitted, hretains.sent.exposed_eq, survivors]
      rw [hretained]
      dsimp only
      rw [hretains.decompressed, hretains.format_eq, hretains.startMs_eq]
      dsimp only
      rw [hretains.sent.parsed]
      obtain ⟨rederived, hloop, hnodup, hspec⟩ := rederiveFrom_spec hsorted event.startMs timestamp
        (identified deps target body event.startMs) ((hash :: rest).map fun _ => false)
        (List.length_map ..)
        (fun x hx => (identified_spec hx).1) hretains.sent.total
        (by
          rw [← hemitted]
          exact fun a ha b hb => hdistinct.eq_of_hash ⟨event, hevent, ha⟩ ⟨event, hevent, hb⟩)
      refine ⟨rederived, hloop, hnodup, fun e => ?_⟩
      rw [hspec, pending_init, ← hemitted, hmem]

/-! ## One scrape -/

theorem nodup_storeOf (current : List (Identity × List Label)) : (Store.of current).Nodup :=
  (List.pairwise_pwFilter current).imp fun hne heq => hne (congrArg Prod.fst heq)

/-- Nothing is lost by storing one entry for each identity. -/
theorem mem_storeOf {current : List (Identity × List Label)}
    (hunique : ∀ a ∈ current, ∀ b ∈ current, a.1 = b.1 → a = b) {e : Identity × List Label} :
    e ∈ Store.of current ↔ e ∈ current := by
  refine ⟨fun h => List.pwFilter_subset _ h, fun h => ?_⟩
  have htrans : ∀ {x y z : Identity × List Label}, x.1 ≠ z.1 → x.1 ≠ y.1 ∨ y.1 ≠ z.1 := by
    intro x y z hne
    by_contra hnot
    push Not at hnot
    exact hne (hnot.1.trans hnot.2)
  by_contra hmissing
  refine (List.forall_mem_pwFilter (R := fun a b => a.1 ≠ b.1) htrans e current).mp
    (fun b hb heq => ?_) e h rfl
  have hb' := List.pwFilter_subset _ hb
  exact hmissing (hunique e h b hb' heq ▸ hb)

theorem Tracks.unique (h : Tracks deps target events tracker entries) :
    ∀ a ∈ entries, ∀ b ∈ entries, a.1 = b.1 → a = b := by
  intro a ha b hb hid
  obtain ⟨event, -, ha⟩ := h.emitted_by a ha
  obtain ⟨event', -, hb⟩ := h.emitted_by b hb
  exact emitted_unique ha hb hid

/-- With the hashes unchanged, so are the entries. -/
theorem Tracks.mem_iff_of_hashes_eq (h : Tracks deps target events tracker entries)
    (hdistinct : DistinctHashes deps target events) {event : ScrapeEvent} (hevent : event ∈ events)
    (hhashes : tracker.hashes = sortDedup ((emitted deps target event).map (·.1.hash)))
    (e : Identity × List Label) : e ∈ entries ↔ e ∈ emitted deps target event := by
  have hsame : ∀ hash, (∃ e ∈ entries, e.1.hash = hash) ↔
      ∃ e ∈ emitted deps target event, e.1.hash = hash := by
    intro hash
    rw [← h.mem_hashes, hhashes, mem_sortDedup, List.mem_map]
  constructor
  · intro he
    obtain ⟨e', he', hhash⟩ := (hsame _).mp ⟨e, he, rfl⟩
    rwa [← hdistinct.eq_of_hash ⟨event, hevent, he'⟩ (h.emitted_by e he) hhash]
  · intro he
    obtain ⟨e', he', hhash⟩ := (hsame _).mpr ⟨e, he, rfl⟩
    rwa [← hdistinct.eq_of_hash (h.emitted_by e' he') ⟨event, hevent, he⟩ hhash]

/-- The retained body after a scrape answers for what the scrape emitted. -/
theorem Tracks.retain (h : Tracks deps target events tracker entries)
    (htrack : target.trackStaleness = true) (hsnappy : RoundTrips deps events)
    (hdistinct : DistinctHashes deps target events) {event : ScrapeEvent} (hevent : event ∈ events)
    {outcome : ScrapeOutcome} (houtcome : scrapeOnce deps target event = .ok outcome)
    (hne : emitted deps target event ≠ []) :
    ∃ retained event' body series,
      tracker.retain deps (sortDedup ((emitted deps target event).map (·.1.hash)))
          outcome.retainedBody event.startMs = some retained ∧
        event' ∈ events ∧ Retains deps target retained event' body series ∧
          ∀ e, e ∈ emitted deps target event ↔ e ∈ emitted deps target event' := by
  obtain ⟨-, ⟨-, -, hexposed⟩ | ⟨body, hfetched, hsent, hbody⟩⟩ := scrapeOnce_eq_ok houtcome
  · rw [emitted, hexposed] at hne
    exact absurd rfl hne
  rw [if_pos htrack] at hbody
  rw [hbody, SeriesTracker.retain]
  split
  · obtain ⟨compressed, hcompress, hdecompress⟩ := hsnappy event hevent body hfetched
    rw [hcompress]
    exact ⟨_, event, body, outcome.series, rfl, hevent, ⟨hsent, hdecompress, rfl, rfl⟩,
      fun _ => Iff.rfl⟩
  · next hkeep =>
      -- the body is not replaced, but it names the same series
      obtain ⟨-, hhashes⟩ := not_or.mp hkeep
      have hsame := h.mem_iff_of_hashes_eq hdistinct hevent (not_not.mp hhashes)
      obtain ⟨e, he⟩ := List.exists_mem_of_ne_nil _ hne
      obtain ⟨retained, event', body', series, hretained, hevent', hretains, hmem⟩ :=
        h.retained (List.ne_nil_of_mem ((hsame e).mpr he))
      exact ⟨retained, event', body', series, hretained, hevent', hretains,
        fun e => (hsame e).symm.trans (hmem e)⟩

/-- An entry's hash is gone exactly when its identity is. -/
theorem Tracks.hash_gone_iff (h : Tracks deps target events tracker entries)
    (hdistinct : DistinctHashes deps target events) {event : ScrapeEvent} (hevent : event ∈ events)
    {e : Identity × List Label} (he : e ∈ entries) :
    (e.1.hash ∈ tracker.hashes ∧ ¬ ∃ e' ∈ emitted deps target event, e'.1.hash = e.1.hash) ↔
      ¬ ∃ e' ∈ emitted deps target event, e'.1 = e.1 := by
  constructor
  · rintro ⟨-, hgone⟩ ⟨e', he', hid⟩
    exact hgone ⟨e', he', congrArg Identity.hash hid⟩
  · intro hgone
    refine ⟨h.mem_hashes.mpr ⟨e, he, rfl⟩, ?_⟩
    rintro ⟨e', he', hhash⟩
    -- without collisions the entry of that hash is `e` itself
    have heq := hdistinct.eq_of_hash ⟨event, hevent, he'⟩ (h.emitted_by e he) hhash
    exact hgone ⟨e', he', congrArg Prod.fst heq⟩

/-- **One scrape.** The tracker writes the naive tracker's markers and keeps tracking. -/
theorem Tracks.advance (h : Tracks deps target events tracker entries)
    (htrack : target.trackStaleness = true) (hsnappy : RoundTrips deps events)
    (hdistinct : DistinctHashes deps target events) {event : ScrapeEvent} (hevent : event ∈ events)
    {outcome : ScrapeOutcome} (houtcome : scrapeOnce deps target event = .ok outcome) :
    ∃ markers tracker',
      tracker.advance deps target outcome.series outcome.retainedBody outcome.startMs =
          .ok (markers, tracker') ∧
        markers.Perm ((Store.of entries).markers (emitted deps target event) event.startMs) ∧
        Tracks deps target events tracker' (emitted deps target event) := by
  rw [SeriesTracker.advance, (scrapeOnce_eq_ok houtcome).1, currentHashes_eq houtcome]
  generalize hcurrent : sortDedup ((emitted deps target event).map (·.1.hash)) = current
  have hcurrentSorted : current.Pairwise (· < ·) := hcurrent ▸ pairwise_sortDedup _
  have hsorted : tracker.hashes.Pairwise (· < ·) := h.hashes_eq ▸ pairwise_sortDedup _
  have hvanished : ∀ hash, hash ∈ tracker.hashes.filter
      (fun hash => (binarySearch current hash).isNone) ↔ hash ∈ tracker.hashes ∧
        ¬ ∃ e ∈ emitted deps target event, e.1.hash = hash := by
    intro hash
    rw [List.mem_filter, Option.isNone_iff_eq_none, binarySearch_isNone_iff hcurrentSorted,
      ← hcurrent, mem_sortDedup, List.mem_map]
  obtain ⟨rederived, hmarkers, hnodup, hmem⟩ := h.rederiveMarkers hdistinct
    (hsorted.filter fun hash => (binarySearch current hash).isNone)
    (fun hash hhash => ((hvanished hash).mp hhash).1) event.startMs
  rw [hmarkers]
  refine ⟨_, _, rfl, ?_, ?_⟩
  · refine List.Perm.map _ ((List.perm_ext_iff_of_nodup hnodup
      ((nodup_storeOf entries).filter _)).mpr fun e => ?_)
    rw [hmem, hvanished, List.mem_filter, mem_storeOf h.unique]
    refine and_congr_right fun he => ?_
    rw [h.hash_gone_iff hdistinct hevent he, Bool.not_eq_true', List.contains_eq_mem,
      decide_eq_false_iff_not, List.mem_map]
  · exact {
      hashes_eq := hcurrent.symm
      emitted_by := fun e he => ⟨event, hevent, he⟩
      retained := by
        intro hne
        rw [← hcurrent]
        exact h.retain htrack hsnappy hdistinct hevent houtcome hne }

/-- Draining writes a marker for everything the naive tracker stores. -/
theorem Tracks.drainAll (h : Tracks deps target events tracker entries)
    (hdistinct : DistinctHashes deps target events) (timestamp : Int64) :
    ∃ markers, tracker.drainAll deps target timestamp = .ok (markers, SeriesTracker.default) ∧
      markers.Perm ((Store.of entries).drain timestamp) := by
  obtain ⟨rederived, hmarkers, hnodup, hmem⟩ := h.rederiveMarkers hdistinct
    (h.hashes_eq ▸ pairwise_sortDedup _) (fun _ hhash => hhash) timestamp
  rw [SeriesTracker.drainAll, hmarkers]
  refine ⟨_, rfl, List.Perm.map _ ((List.perm_ext_iff_of_nodup hnodup (nodup_storeOf entries)).mpr
    fun e => ?_)⟩
  rw [hmem, mem_storeOf h.unique, h.mem_hashes]
  exact ⟨fun he => he.1, fun he => ⟨he, e, he, rfl⟩⟩

end

/-! ## Runs -/

/-- The rounds of a run against the outcomes of its scrapes and the naive tracker's markers. -/
structure RunAgrees (deps : ScrapeDeps) (target : Target deps.relabel.engine)
    (events : List ScrapeEvent) (store : Store) (outcomes : List ScrapeOutcome)
    (rounds : List Round) : Prop where
  series_eq : rounds.map (·.series) = outcomes.map (·.series)
  markers_perm : List.Forall₂ (fun round markers => round.markers.Perm markers) rounds
    (naiveLoop deps target store events).1

/-- A run from a state that tracks ends in one. -/
theorem scrapeLoop_tracks {all : List ScrapeEvent} (htrack : target.trackStaleness = true)
    (hsnappy : RoundTrips deps all) (hdistinct : DistinctHashes deps target all)
    {events : List ScrapeEvent} :
    ∀ {state : LoopState} {tracker : SeriesTracker} {entries : List (Identity × List Label)}
      {outcomes : List ScrapeOutcome}, (∀ event ∈ events, event ∈ all) →
      state.tracker = some tracker → Tracks deps target all tracker entries →
      events.mapM (scrapeOnce deps target) = .ok outcomes →
      ∃ rounds state' tracker' entries',
        scrapeLoop deps target state events = .ok (rounds, state') ∧
          RunAgrees deps target events (Store.of entries) outcomes rounds ∧
          state'.tracker = some tracker' ∧ Tracks deps target all tracker' entries' ∧
          (naiveLoop deps target (Store.of entries) events).2 = Store.of entries' := by
  induction events with
  | nil =>
      intro state tracker entries outcomes _ hstate htracks houtcomes
      cases houtcomes
      exact ⟨[], state, tracker, entries, rfl, ⟨rfl, .nil⟩, hstate, htracks, rfl⟩
  | cons event rest ih =>
      intro state tracker entries outcomes hall hstate htracks houtcomes
      obtain ⟨hevent, hall⟩ := List.forall_mem_cons.mp hall
      rw [List.mapM_cons] at houtcomes
      obtain ⟨outcome, houtcome, houtcomes⟩ := bind_eq_ok.mp houtcomes
      obtain ⟨later, hlater, houtcomes⟩ := bind_eq_ok.mp houtcomes
      cases houtcomes
      obtain ⟨markers, advanced, hadvance, hperm, hnext⟩ :=
        htracks.advance htrack hsnappy hdistinct hevent houtcome
      have hrecord : ∃ state', state.record deps target outcome =
          .ok (⟨outcome.series, markers, outcome.report⟩, state') ∧
            state'.tracker = some advanced := by
        rw [LoopState.record, hstate]
        dsimp only
        rw [hadvance]
        exact ⟨_, rfl, rfl⟩
      obtain ⟨state', hrecord, hstate'⟩ := hrecord
      obtain ⟨rounds, last, tracker', entries', hloop, hagrees, hlast, htracks', hstore⟩ :=
        ih hall hstate' hnext hlater
      refine ⟨⟨outcome.series, markers, outcome.report⟩ :: rounds, last, tracker', entries', ?_,
        ⟨?_, ?_⟩, hlast, htracks', ?_⟩
      · rw [scrapeLoop]
        exact bind_eq_ok.mpr
          ⟨_, houtcome, bind_eq_ok.mpr ⟨_, hrecord, bind_eq_ok.mpr ⟨_, hloop, rfl⟩⟩⟩
      · rw [List.map_cons, List.map_cons, hagrees.series_eq]
      · rw [naiveLoop]
        exact .cons hperm hagrees.markers_perm
      · rw [naiveLoop]
        exact hstore

/-- **The tracker is the naive tracker.** -/
theorem scrapeLoop_markers {events : List ScrapeEvent} {outcomes : List ScrapeOutcome}
    (htrack : target.trackStaleness = true) (hsnappy : RoundTrips deps events)
    (hdistinct : DistinctHashes deps target events)
    (houtcomes : events.mapM (scrapeOnce deps target) = .ok outcomes) (removedMs : Int64) :
    ∃ rounds state drained,
      scrapeLoop deps target (LoopState.init target) events = .ok (rounds, state) ∧
        rounds.map (·.series) = outcomes.map (·.series) ∧
        List.Forall₂ (fun round markers => round.markers.Perm markers) rounds
          (naiveLoop deps target [] events).1 ∧
        state.removed deps target removedMs =
          .ok (drained ++ state.reportSeries.map (staleSeries · removedMs)) ∧
        drained.Perm ((naiveLoop deps target [] events).2.drain removedMs) := by
  have hinit : (LoopState.init target).tracker = some SeriesTracker.default := by
    rw [LoopState.init, if_pos htrack]
  obtain ⟨rounds, state, tracker, entries, hloop, hagrees, hstate, htracks, hstore⟩ :=
    scrapeLoop_tracks htrack hsnappy hdistinct (fun _ h => h) hinit (tracks_default events)
      houtcomes
  obtain ⟨drained, hdrain, hperm⟩ := htracks.drainAll hdistinct removedMs
  refine ⟨rounds, state, drained, hloop, hagrees.series_eq, hagrees.markers_perm, ?_, ?_⟩
  · rw [LoopState.removed, hstate]
    dsimp only
    rw [hdrain]
    rfl
  · exact hstore ▸ hperm

end

/-! ## A run -/

def literalDeps : ScrapeDeps where
  relabel := fragmentDeps
  prost := { decode := fun _ => .error "no family", consumes := by nofun, debugStr := id }
  compress := compressLiteral
  decompress := decompressLiteral

def plainTarget : Target literalDeps.relabel.engine where
  url := "http://t:1/metrics"
  params := []
  labels := [⟨"instance", "t:1"⟩, ⟨"job", "test"⟩]
  honorLabels := false
  honorTimestamps := true
  sampleLimit := 0
  protobuf := ⟨true, true, false, 0⟩
  trackStaleness := true
  metricRelabelConfigs := []
  externalLabels := [⟨"origin", "here"⟩]

/-- A scrape that fetched a text body. -/
def textScrape (startMs : Int64) (body : String) : ScrapeEvent where
  startMs := startMs
  duration := F64.zero
  fetched := .ok ⟨utf8Bytes body, .text⟩

/-- The set of series is unchanged in the second scrape; `b` gets a timestamp of its own in the
third; the fourth fails. -/
def fourScrapes : List ScrapeEvent :=
  [textScrape 1000 "a 1\nb 2\n", textScrape 2000 "a 3\nb 4\n", textScrape 3000 "a 5\nb 6 9\n",
    ⟨4000, F64.zero, .error "connection refused"⟩]

theorem roundTrips_literalDeps {events : List ScrapeEvent}
    (h : ∀ event ∈ events, ∀ body, event.fetched = .ok body →
      (compressLiteral body.bytes).isSome = true) :
    RoundTrips literalDeps events := by
  intro event hevent body hbody
  obtain ⟨compressed, hcompressed⟩ := Option.isSome_iff_exists.mp (h event hevent body hbody)
  exact ⟨compressed, hcompressed, decompressLiteral_of_compressLiteral hcompressed⟩

theorem roundTrips_fourScrapes : RoundTrips literalDeps fourScrapes := by
  refine roundTrips_literalDeps ?_
  intro event hevent body hbody
  simp only [fourScrapes, List.mem_cons, List.not_mem_nil, or_false] at hevent
  rcases hevent with rfl | rfl | rfl | rfl
  all_goals cases hbody
  all_goals decide +kernel

theorem scrapeLoop_markers_fourScrapes :
    ∃ (rounds : List Round) (state : LoopState) (drained : List TimeSeries),
      scrapeLoop literalDeps plainTarget (LoopState.init plainTarget) fourScrapes =
          .ok (rounds, state) ∧
        List.Forall₂ (fun round markers => round.markers.Perm markers) rounds
          (naiveLoop literalDeps plainTarget [] fourScrapes).1 ∧
        drained.Perm ((naiveLoop literalDeps plainTarget [] fourScrapes).2.drain 5000) ∧
        (naiveLoop literalDeps plainTarget [] fourScrapes).1.map List.length = [0, 0, 1, 1] := by
  obtain ⟨outcomes, houtcomes, -⟩ := Fallible.exists_ok_of_any (p := fun _ => true)
    (x := fourScrapes.mapM (scrapeOnce literalDeps plainTarget)) (by decide +kernel)
  obtain ⟨rounds, state, drained, hloop, -, hmarkers, -, hdrained⟩ :=
    scrapeLoop_markers rfl roundTrips_fourScrapes (by unfold DistinctHashes; decide +kernel)
      houtcomes 5000
  exact ⟨rounds, state, drained, hloop, hmarkers, hdrained, by decide +kernel⟩

end PromScrape
