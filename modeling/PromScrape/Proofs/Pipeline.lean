import PromScrape.Proofs.LiveMarkers
import PromScrape.Proofs.ReceivedSeries

set_option autoImplicit false

/-! # From the scrapes of a target to a receiver

The scrape loop of a target, the queue of an endpoint among other producers, and what the receiver
reads. Whatever a scrape sends is closed: after it the receiver gets a staleness marker for each of its
series, at the latest when the target is removed. -/

namespace PromScrape

open Fallible
open Regex (Engine)
open Snappy (decompressLiteral)

variable {deps : ScrapeDeps} {target : Target deps.relabel.engine}

/-! ## Markers -/

section

variable {store : Store} {e : Identity × List Label} {origin : ScrapeEvent}

end

/-! ## Report series -/

/-- A later round, or the removal of the target, has a marker for the label set. -/
def ClosedAfter (events : List ScrapeEvent) (rounds : List Round) (removed : List TimeSeries)
    (removedMs : Int64) (k : Nat) (labels : List Label) : Prop :=
  staleSeries labels removedMs ∈ removed ∨
    ∃ (j : Nat) (later : ScrapeEvent) (next : Round), k < j ∧ events[j]? = some later ∧
      rounds[j]? = some next ∧ staleSeries labels later.startMs ∈ next.markers

section

variable {rdeps : RelabelDeps} {rules : List (RelabelConfig rdeps.engine)}

end

/-- What a loop hands to `send`, up to the removal of its target; `send` passes no empty batch on. -/
def sentBatches (rounds : List Round) (removed : List TimeSeries) : List (List TimeSeries) :=
  (rounds.map Round.batch ++ [removed]).filter (!·.isEmpty)

/-- A marker comes after the batch of the round that it closes. -/
theorem ClosedAfter.sent {events : List ScrapeEvent} {rounds : List Round}
    {removed : List TimeSeries} {removedMs : Int64} {k : Nat} {round : Round} {labels : List Label}
    (h : ClosedAfter events rounds removed removedMs k labels) (hround : rounds[k]? = some round)
    (hne : round.batch ≠ []) :
    ∃ (pre post : List (List TimeSeries)) (closing : List TimeSeries) (timestamp : Int64),
      sentBatches rounds removed = pre ++ round.batch :: post ∧ closing ∈ post ∧
        timestamp ∈ removedMs :: (events.drop (k + 1)).map (·.startMs) ∧
        staleSeries labels timestamp ∈ closing := by
  have hk := (List.getElem?_eq_some_iff.mp hround).1
  have hsplit : rounds = rounds.take k ++ round :: rounds.drop (k + 1) := by
    conv_lhs => rw [← List.take_append_drop k rounds]
    rw [List.drop_eq_getElem_cons hk, (List.getElem?_eq_some_iff.mp hround).2]
  have hkeep : (!round.batch.isEmpty) = true := by simpa using hne
  refine ⟨((rounds.take k).map Round.batch).filter (!·.isEmpty),
    ((rounds.drop (k + 1)).map Round.batch ++ [removed]).filter (!·.isEmpty), ?_⟩
  have hbatches : sentBatches rounds removed =
      ((rounds.take k).map Round.batch).filter (!·.isEmpty) ++ round.batch ::
        ((rounds.drop (k + 1)).map Round.batch ++ [removed]).filter (!·.isEmpty) := by
    rw [sentBatches]
    conv_lhs => rw [hsplit]
    rw [List.map_append, List.map_cons, List.append_assoc, List.cons_append, List.filter_append,
      @List.filter_cons_of_pos _ (!·.isEmpty) round.batch _ hkeep]
  have hnonempty {closing : List TimeSeries} {marker : TimeSeries} (hmem : marker ∈ closing) :
      (!closing.isEmpty) = true := by
    simpa using List.ne_nil_of_mem hmem
  rcases h with hremoved | ⟨j, later, next, hlt, hlater, hnext, hmarker⟩
  · exact ⟨removed, removedMs, hbatches,
      List.mem_filter.mpr ⟨List.mem_append_right _ (List.mem_singleton_self _), hnonempty hremoved⟩,
      List.mem_cons_self, hremoved⟩
  · have hbatch : staleSeries labels later.startMs ∈ next.batch :=
      List.mem_append_left _ (List.mem_append_right _ hmarker)
    have hdrop {α : Type} {l : List α} {a : α} (ha : l[j]? = some a) : a ∈ l.drop (k + 1) := by
      refine List.mem_of_getElem? (i := j - (k + 1)) ?_
      rw [List.getElem?_drop, Nat.add_sub_cancel' hlt]
      exact ha
    refine ⟨next.batch, later.startMs, hbatches, List.mem_filter.mpr ⟨?_, hnonempty hbatch⟩,
      List.mem_cons_of_mem _ (List.mem_map_of_mem (hdrop hlater)), hbatch⟩
    exact List.mem_append_left _ (List.mem_map_of_mem (hdrop hnext))

/-! ## End to end -/

end PromScrape
