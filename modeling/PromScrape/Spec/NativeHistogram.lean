import PromScrape.Library.MergeRuns
import PromScrape.Library.SortedSearch
import PromScrape.Implementation.Protobuf

set_option autoImplicit false

/-! # What the spans of a native histogram describe

Spans lay buckets out along the integers. Coarsening by `n` schemas sends bucket `i` to the bucket
that contains it, `⌊(i - 1) / 2 ^ n⌋ + 1`. -/

namespace PromScrape

/-- `n` indices, from `first` on. -/
def indexRun : Int → Nat → List Int
  | _, 0 => []
  | first, n + 1 => first :: indexRun (first + 1) n

/-- The bucket indices of spans laid out from `next` on. -/
def spanIndices : Int → List BucketSpan → List Int
  | _, [] => []
  | next, span :: rest =>
      indexRun (next + span.offset.toInt) span.length.toNat ++
        spanIndices (next + span.offset.toInt + span.length.toNat) rest

/-- The index after spans laid out from `next` on. -/
def spanEnd : Int → List BucketSpan → Int
  | next, [] => next
  | next, span :: rest => spanEnd (next + span.offset.toInt + span.length.toNat) rest

/-- No span is empty, and none after the first adjoins the one before. -/
structure Canonical (spans : List BucketSpan) : Prop where
  length_pos : ∀ span ∈ spans, 0 < span.length.toNat
  offset_pos : ∀ span ∈ spans.tail, 0 < span.offset.toInt

/-- The bucket that bucket `i` lands in, `n` schemas coarser. -/
def coarseIndex (n : Nat) (i : Int) : Int := (i - 1) / 2 ^ n + 1

/-- The distinct buckets that `indices` land in, `n` schemas coarser. -/
def coarsened (n : Nat) (indices : List Int) : List Int := (indices.map (coarseIndex n)).dedup

/-- The indices of `spans` ascend within `i32`. -/
structure InRange (spans : List BucketSpan) : Prop where
  ascending : (spanIndices 0 spans).Pairwise (· < ·)
  bounds : ∀ i ∈ spanIndices 0 spans, -2 ^ 31 ≤ i ∧ i < 2 ^ 31

/-- Each count with the bucket it lands in. -/
def coarsePairs {α : Type} (n : Nat) (indices : List Int) (counts : List α) : List (Int × α) :=
  (indices.map (coarseIndex n)).zip counts

/-- `out` describes the buckets of `spans` and `counts`, `n` schemas coarser. -/
structure MergedInto {α : Type} (add : α → α → α) (n : Nat) (spans : List BucketSpan)
    (counts : List α) (out : List BucketSpan × List α) : Prop where
  ascending : (spanIndices 0 out.1).Pairwise (· < ·)
  indices : ∀ j, j ∈ spanIndices 0 out.1 ↔ ∃ i ∈ spanIndices 0 spans, coarseIndex n i = j
  length : out.2.length = (spanIndices 0 out.1).length
  /-- Each count is the sum of the counts that land in its bucket, in order. -/
  sums : ∀ j c, (j, c) ∈ (spanIndices 0 out.1).zip out.2 →
    MergeRuns.total add
      (MergeRuns.valuesOf (coarsePairs n (spanIndices 0 spans) counts) j) = some c
  canonical : Canonical out.1

/-! ## Both sides -/

def Histogram.spansOf (histogram : Histogram) : Side → List BucketSpan
  | .negative => histogram.negativeSpans
  | .positive => histogram.positiveSpans

def Histogram.deltasOf (histogram : Histogram) : Side → List Int64
  | .negative => histogram.negativeDeltas
  | .positive => histogram.positiveDeltas

def Histogram.countsOf (histogram : Histogram) : Side → List F64
  | .negative => histogram.negativeCounts
  | .positive => histogram.positiveCounts

/-- The bucket indices that one side describes. -/
def Histogram.indices (histogram : Histogram) (side : Side) : List Int :=
  spanIndices 0 (histogram.spansOf side)

/-- How many buckets both sides have `n` schemas coarser. -/
def coarseCount (histogram : Histogram) (n : Nat) : Nat :=
  (coarsened n (histogram.indices .negative)).length +
    (coarsened n (histogram.indices .positive)).length

/-! ## Index runs -/

@[simp] theorem length_indexRun (first : Int) (n : Nat) : (indexRun first n).length = n := by
  induction n generalizing first with
  | zero => rfl
  | succ n ih => rw [indexRun, List.length_cons, ih]

theorem mem_indexRun {first i : Int} {n : Nat} :
    i ∈ indexRun first n ↔ first ≤ i ∧ i < first + n := by
  induction n generalizing first with
  | zero =>
      rw [indexRun]
      simp
  | succ n ih =>
      rw [indexRun, List.mem_cons, ih]
      push_cast
      omega

theorem indexRun_succ (first : Int) (n : Nat) :
    indexRun first (n + 1) = indexRun first n ++ [first + n] := by
  induction n generalizing first with
  | zero => simp [indexRun]
  | succ n ih =>
      rw [indexRun, ih (first + 1), indexRun, List.cons_append]
      push_cast
      rw [show first + 1 + (n : Int) = first + (n + 1) by omega]

theorem indexRun_pairwise (first : Int) (n : Nat) : (indexRun first n).Pairwise (· < ·) := by
  induction n generalizing first with
  | zero => exact List.Pairwise.nil
  | succ n ih =>
      rw [indexRun, List.pairwise_cons]
      refine ⟨?_, ih (first + 1)⟩
      intro i hi
      have hmem := mem_indexRun.mp hi
      omega

/-! ## Spans -/

theorem spanIndices_append (next : Int) (spans spans' : List BucketSpan) :
    spanIndices next (spans ++ spans') =
      spanIndices next spans ++ spanIndices (spanEnd next spans) spans' := by
  induction spans generalizing next with
  | nil => rfl
  | cons span rest ih => rw [List.cons_append, spanIndices, spanIndices, ih, List.append_assoc]; rfl

theorem spanEnd_append (next : Int) (spans spans' : List BucketSpan) :
    spanEnd next (spans ++ spans') = spanEnd (spanEnd next spans) spans' := by
  induction spans generalizing next with
  | nil => rfl
  | cons span rest ih => exact ih _

/-- Spans that only go forward lay out indices after `next`. -/
theorem lt_of_mem_spanIndices {spans : List BucketSpan}
    (hoffset : ∀ span ∈ spans, 0 < span.offset.toInt) {next i : Int}
    (hi : i ∈ spanIndices next spans) : next < i := by
  induction spans generalizing next with
  | nil => cases hi
  | cons span rest ih =>
      have hpos := hoffset span List.mem_cons_self
      rw [spanIndices, List.mem_append] at hi
      rcases hi with hrun | hrest
      · have hmem := mem_indexRun.mp hrun
        omega
      · have hlt := ih (fun s hs => hoffset s (List.mem_cons_of_mem _ hs)) hrest
        omega

theorem Canonical.of_cons {span : BucketSpan} {rest : List BucketSpan}
    (h : Canonical (span :: rest)) : Canonical rest where
  length_pos s hs := h.length_pos s (List.mem_cons_of_mem _ hs)
  offset_pos s hs := h.offset_pos s (List.mem_of_mem_tail hs)

theorem canonical_append_singleton {spans : List BucketSpan} {span : BucketSpan} :
    Canonical (spans ++ [span]) ↔
      Canonical spans ∧ 0 < span.length.toNat ∧ (spans ≠ [] → 0 < span.offset.toInt) := by
  constructor
  · intro h
    refine ⟨⟨fun s hs => h.length_pos s (List.mem_append_left _ hs), fun s hs => ?_⟩,
      h.length_pos span (by simp), fun hne => h.offset_pos span ?_⟩
    · cases spans with
      | nil => cases hs
      | cons first others => exact h.offset_pos s (List.mem_append_left _ hs)
    · rw [List.tail_append_of_ne_nil hne]
      exact List.mem_append_right _ (List.mem_singleton_self _)
  · rintro ⟨h, hlength, hoffset⟩
    constructor
    · intro s hs
      rw [List.mem_append, List.mem_singleton] at hs
      rcases hs with hold | rfl
      · exact h.length_pos s hold
      · exact hlength
    · intro s hs
      rcases eq_or_ne spans [] with rfl | hne
      · cases hs
      · rw [List.tail_append_of_ne_nil hne, List.mem_append, List.mem_singleton] at hs
        rcases hs with hold | rfl
        · exact h.offset_pos s hold
        · exact hoffset hne

theorem Canonical.head?_spanIndices {span : BucketSpan} {rest : List BucketSpan}
    (h : Canonical (span :: rest)) (next : Int) :
    (spanIndices next (span :: rest)).head? = some (next + span.offset.toInt) := by
  obtain ⟨n, hn⟩ := Nat.exists_eq_add_of_lt (h.length_pos span List.mem_cons_self)
  rw [spanIndices, hn, indexRun]
  rfl

/-- The first span is a maximal run. -/
theorem Canonical.first_length_le {span span' : BucketSpan} {rest rest' : List BucketSpan}
    (h : Canonical (span :: rest)) {next : Int} (hoffset : span.offset = span'.offset)
    (heq : spanIndices next (span :: rest) = spanIndices next (span' :: rest')) :
    span'.length.toNat ≤ span.length.toNat := by
  by_contra hlt
  have hmem : next + span.offset.toInt + span.length.toNat ∈ spanIndices next (span :: rest) := by
    rw [heq, spanIndices, List.mem_append, mem_indexRun, hoffset]
    left
    omega
  rw [spanIndices, List.mem_append, mem_indexRun] at hmem
  rcases hmem with hrun | hrest
  · omega
  · exact lt_irrefl _ (lt_of_mem_spanIndices h.offset_pos hrest)

/-- **Canonical spans are determined by the buckets that they describe.** -/
theorem Canonical.eq_of_spanIndices {spans spans' : List BucketSpan} (h : Canonical spans)
    (h' : Canonical spans') {next : Int}
    (heq : spanIndices next spans = spanIndices next spans') : spans = spans' := by
  induction spans generalizing spans' next with
  | nil =>
      cases spans' with
      | nil => rfl
      | cons span' rest' =>
          have hhead := h'.head?_spanIndices next
          rw [← heq] at hhead
          cases hhead
  | cons span rest ih =>
      cases spans' with
      | nil =>
          have hhead := h.head?_spanIndices next
          rw [heq] at hhead
          cases hhead
      | cons span' rest' =>
          have hhead := h.head?_spanIndices next
          rw [heq, h'.head?_spanIndices next, Option.some.injEq] at hhead
          have hoffset : span.offset = span'.offset := Int32.toInt_inj.mp (by omega)
          have hlength : span.length.toNat = span'.length.toNat :=
            le_antisymm (h'.first_length_le hoffset.symm heq.symm) (h.first_length_le hoffset heq)
          have hspan : span = span' := by
            cases span
            cases span'
            rw [BucketSpan.mk.injEq]
            exact ⟨hoffset, UInt32.toNat_inj.mp hlength⟩
          subst hspan
          rw [spanIndices, spanIndices] at heq
          rw [ih h.of_cons h'.of_cons (List.append_cancel_left heq)]

/-! ## Coarser indices -/

@[simp] theorem coarseIndex_zero (i : Int) : coarseIndex 0 i = i := by
  rw [coarseIndex, pow_zero, Int.ediv_one]
  omega

/-- Coarsening in two steps is coarsening once. -/
theorem coarseIndex_coarseIndex (a b : Nat) (i : Int) :
    coarseIndex b (coarseIndex a i) = coarseIndex (a + b) i := by
  rw [coarseIndex, coarseIndex, coarseIndex, add_sub_cancel_right, pow_add,
    Int.ediv_ediv_of_nonneg (pow_nonneg (by omega) a)]

theorem coarseIndex_mono (n : Nat) {i j : Int} (h : i ≤ j) : coarseIndex n i ≤ coarseIndex n j := by
  have hdiv : (i - 1) / 2 ^ n ≤ (j - 1) / 2 ^ n :=
    Int.ediv_le_ediv (pow_pos (by omega) n) (by omega)
  rw [coarseIndex, coarseIndex]
  omega

/-- One schema coarser, the `i32` indices fill half the range. -/
theorem coarseIndex_bounds {n : Nat} (hn : 1 ≤ n) {i : Int} (hlo : -2 ^ 31 ≤ i) (hhi : i < 2 ^ 31) :
    -2 ^ 30 ≤ coarseIndex n i ∧ coarseIndex n i ≤ 2 ^ 30 := by
  obtain ⟨k, rfl⟩ : ∃ k, n = 1 + k := ⟨n - 1, by omega⟩
  have hone : -2 ^ 30 ≤ coarseIndex 1 i ∧ coarseIndex 1 i ≤ 2 ^ 30 := by
    rw [coarseIndex, pow_one]
    omega
  rw [← coarseIndex_coarseIndex]
  generalize coarseIndex 1 i = j at hone
  have hpow : (0 : Int) < 2 ^ k := pow_pos (by omega) k
  rw [coarseIndex]
  constructor
  · have hlow : (-2 ^ 30 - 1 : Int) ≤ (j - 1) / 2 ^ k := by
      rw [Int.le_ediv_iff_mul_le hpow]
      nlinarith
    omega
  · have hhigh : (j - 1) / 2 ^ k < 2 ^ 30 := by
      rw [Int.ediv_lt_iff_lt_mul hpow]
      nlinarith
    omega

theorem mem_coarsened {n : Nat} {indices : List Int} {j : Int} :
    j ∈ coarsened n indices ↔ ∃ i ∈ indices, coarseIndex n i = j := by
  rw [coarsened, List.mem_dedup, List.mem_map]

theorem coarsened_ascending {indices : List Int} (h : indices.Pairwise (· < ·)) (n : Nat) :
    (coarsened n indices).Pairwise (· < ·) := by
  have hle : (indices.map (coarseIndex n)).Pairwise (· ≤ ·) :=
    List.pairwise_map.mpr (h.imp fun hlt => coarseIndex_mono n (le_of_lt hlt))
  exact ((hle.sublist (List.dedup_sublist _)).and (List.nodup_dedup _)).imp
    fun h => lt_of_le_of_ne h.1 h.2

theorem coarsened_zero {indices : List Int} (h : indices.Pairwise (· < ·)) :
    coarsened 0 indices = indices := by
  rw [coarsened, show coarseIndex 0 = id from funext coarseIndex_zero, List.map_id,
    List.dedup_eq_self]
  exact h.imp ne_of_lt

theorem coarsened_coarsened {indices : List Int} (h : indices.Pairwise (· < ·)) (a b : Nat) :
    coarsened b (coarsened a indices) = coarsened (a + b) indices := by
  refine SortedSearch.eq_of_mem_iff (coarsened_ascending (coarsened_ascending h a) b)
    (coarsened_ascending h _) fun j => ?_
  simp only [mem_coarsened, ← coarseIndex_coarseIndex a b]
  constructor
  · rintro ⟨_, ⟨i, hi, rfl⟩, rfl⟩
    exact ⟨i, hi, rfl⟩
  · rintro ⟨i, hi, rfl⟩
    exact ⟨_, ⟨i, hi, rfl⟩, rfl⟩

theorem length_coarsened_le (n : Nat) (indices : List Int) :
    (coarsened n indices).length ≤ indices.length := by
  have hle := (List.dedup_sublist (indices.map (coarseIndex n))).length_le
  rwa [List.length_map] at hle

theorem coarsePairs_keys {α : Type} {n : Nat} {indices : List Int} {counts : List α}
    (h : indices.length ≤ counts.length) :
    (coarsePairs n indices counts).map Prod.fst = indices.map (coarseIndex n) :=
  List.map_fst_zip (by simpa using h)

/-- Coarsening the pairs again is coarsening them once. -/
theorem coarsePairs_map {α : Type} (a b : Nat) (indices : List Int) (counts : List α) :
    (coarsePairs a indices counts).map (fun p => (coarseIndex b p.1, p.2)) =
      coarsePairs (a + b) indices counts := by
  rw [coarsePairs, coarsePairs, show (fun p : Int × α => (coarseIndex b p.1, p.2)) =
    Prod.map (coarseIndex b) id from rfl, ← List.zip_map_left, List.map_map]
  simp only [Function.comp_def, coarseIndex_coarseIndex]

theorem coarsePairs_map_counts {α β : Type} (f : α → β) (n : Nat) (indices : List Int)
    (counts : List α) :
    coarsePairs n indices (counts.map f) =
      (coarsePairs n indices counts).map fun p => (p.1, f p.2) :=
  List.zip_map_right ..

theorem coarsePairs_append {α : Type} (n : Nat) (indices indices' : List Int) (counts : List α) :
    coarsePairs n (indices ++ indices') counts =
      coarsePairs n indices counts ++ coarsePairs n indices' (counts.drop indices.length) := by
  induction indices generalizing counts with
  | nil => rfl
  | cons i rest ih =>
      cases counts with
      | nil => simp [coarsePairs]
      | cons c counts =>
          have hrest := ih counts
          simp only [coarsePairs] at hrest
          simp only [coarsePairs, List.cons_append, List.map_cons, List.zip_cons_cons, hrest,
            List.length_cons, List.drop_succ_cons]

theorem coarsePairs_counts {α : Type} {n : Nat} {indices : List Int} {counts : List α}
    (h : counts.length ≤ indices.length) : (coarsePairs n indices counts).map Prod.snd = counts :=
  List.map_snd_zip (by simpa using h)

/-- Ascending integers between two bounds. -/
theorem length_le_of_ascending {l : List Int} (h : l.Pairwise (· < ·)) {lo hi : Int}
    (hbound : ∀ i ∈ l, lo ≤ i ∧ i ≤ hi) : l.length ≤ (hi + 1 - lo).toNat := by
  rw [← List.toFinset_card_of_nodup (h.imp ne_of_lt), ← Int.card_Icc]
  refine Finset.card_le_card fun i hi => ?_
  exact Finset.mem_Icc.mpr (hbound i (List.mem_toFinset.mp hi))

end PromScrape
