import PromScrape.Proofs.NativeHistogram

set_option autoImplicit false

/-! # Which schemas are reduced as they should

A schema above 8 is first reduced to 8 by one shift. Release builds take the shift amount modulo 64,
so from schema 72 on the buckets are shifted too little. That goes unnoticed exactly when the little
shift already brings every bucket to the two around the origin, where all further shifts leave it. -/

namespace PromScrape

open Fallible (bind_eq_ok map_eq_ok)

/-! ## The two buckets around the origin -/

/-- `n` schemas coarser, bucket `i` is one of the two around the origin, 0 and 1. -/
def Central (n : Nat) (i : Int) : Prop := 1 - 2 ^ n ≤ i ∧ i ≤ 2 ^ n

theorem coarseIndex_central_iff {n : Nat} {i : Int} :
    coarseIndex n i = 0 ∨ coarseIndex n i = 1 ↔ Central n i := by
  have hpow : (0 : Int) < 2 ^ n := pow_pos (by omega) n
  have hlo : -1 ≤ (i - 1) / 2 ^ n ↔ -1 * 2 ^ n ≤ i - 1 := Int.le_ediv_iff_mul_le hpow
  have hhi : (i - 1) / 2 ^ n < 1 ↔ i - 1 < 1 * 2 ^ n := Int.ediv_lt_iff_lt_mul hpow
  rw [coarseIndex, Central]
  omega

/-- Both stay where they are. -/
theorem coarseIndex_of_central {a b : Nat} (hle : a ≤ b) {i : Int} (h : Central a i) :
    coarseIndex b i = coarseIndex a i := by
  obtain ⟨n, rfl⟩ := Nat.exists_eq_add_of_le hle
  have hpow : (0 : Int) < 2 ^ n := pow_pos (by omega) n
  have hzero : coarseIndex n 0 = 0 := by
    have hdiv : (0 - 1 : Int) / 2 ^ n = -1 := by
      have hlo : -1 ≤ (0 - 1 : Int) / 2 ^ n ↔ -1 * 2 ^ n ≤ 0 - 1 := Int.le_ediv_iff_mul_le hpow
      have hhi : (0 - 1 : Int) / 2 ^ n < 0 ↔ (0 - 1 : Int) < 0 * 2 ^ n :=
        Int.ediv_lt_iff_lt_mul hpow
      omega
    rw [coarseIndex, hdiv]
    rfl
  have hone : coarseIndex n 1 = 1 := by
    rw [coarseIndex, sub_self, Int.zero_ediv]
    rfl
  rw [← coarseIndex_coarseIndex]
  rcases coarseIndex_central_iff.mpr h with heq | heq
  · rw [heq, hzero]
  · rw [heq, hone]

/-- Far enough up, every `i32` index is central. -/
theorem central_of_large {n : Nat} (hn : 32 ≤ n) {i : Int} (hlo : -2 ^ 31 ≤ i) (hhi : i < 2 ^ 31) :
    Central n i := by
  have hpow : (2 : Int) ^ 32 ≤ 2 ^ n := pow_le_pow_right₀ (by omega) hn
  rw [Central]
  omega

/-- A shift that is too small gives the same buckets as a large one exactly when all of them are
central by then. -/
theorem coarsened_congr_iff {indices : List Int} (hbound : ∀ i ∈ indices, -2 ^ 31 ≤ i ∧ i < 2 ^ 31)
    {a b : Nat} (hle : a ≤ b) (hb : 32 ≤ b) :
    (∀ j, j ∈ coarsened a indices ↔ ∃ i ∈ indices, coarseIndex b i = j) ↔
      ∀ i ∈ indices, Central a i := by
  simp only [mem_coarsened]
  constructor
  · intro h i hi
    obtain ⟨i', hi', heq⟩ := (h (coarseIndex a i)).mp ⟨i, hi, rfl⟩
    rw [← coarseIndex_central_iff, ← heq, coarseIndex_central_iff]
    exact central_of_large hb (hbound i' hi').1 (hbound i' hi').2
  · intro h j
    constructor
    · rintro ⟨i, hi, rfl⟩
      exact ⟨i, hi, coarseIndex_of_central hle (h i hi)⟩
    · rintro ⟨i, hi, rfl⟩
      exact ⟨i, hi, (coarseIndex_of_central hle (h i hi)).symm⟩

/-! ## What was returned -/

/-- How far the reduction to schema 8 shifts. -/
def firstShift (schema : Int32) : Nat :=
  if schemaMax < schema then shiftAmount (schema - schemaMax) else 0

/-- `k` is the number of further reductions that the bucket limit asks for. -/
def LimitRounds (bucketLimit : UInt32) (exposed : Histogram) (shift k : Nat) : Prop :=
  if bucketLimit = 0 then k = 0
  else
    coarseCount exposed (shift + k) ≤ bucketLimit.toNat ∧
      ∀ m < k, bucketLimit.toNat < coarseCount exposed (shift + m)

theorem LimitRounds.unique {bucketLimit : UInt32} {exposed : Histogram} {shift k k' : Nat}
    (h : LimitRounds bucketLimit exposed shift k) (h' : LimitRounds bucketLimit exposed shift k') :
    k = k' := by
  unfold LimitRounds at h h'
  split at h
  · next hzero =>
      rw [if_pos hzero] at h'
      rw [h, h']
  · next hne =>
      rw [if_neg hne] at h'
      rcases Nat.lt_trichotomy k k' with hlt | heq | hlt
      · exact absurd h.1 (not_le.mpr (h'.2 k hlt))
      · exact heq
      · exact absurd h'.1 (not_le.mpr (h.2 k' hlt))

/-- The limit loop on a checked histogram of schema 8 at most. -/
theorem limitedHistogram_reduced {histogram returned : Histogram} {bucketLimit : UInt32}
    (h : ∀ side, SideValid histogram side) (hlo : schemaMin.toInt ≤ histogram.schema.toInt)
    (hhi : histogram.schema.toInt ≤ 8) (hok : limitedHistogram histogram bucketLimit = .ok returned) :
    ∃ k ≤ 12, LimitRounds bucketLimit histogram 0 k ∧ Reduced k histogram returned ∧
      returned.schema.toInt + k = histogram.schema.toInt := by
  have hmin : schemaMin.toInt = -4 := rfl
  unfold limitedHistogram at hok
  split at hok
  · next hpos =>
      have hne : bucketLimit ≠ 0 := by
        rintro rfl
        exact absurd hpos (by decide)
      obtain ⟨rounds, hrounds, hloop⟩ := limitBuckets_run bucketLimit.toNat h
        (n := (histogram.schema.toInt - schemaMin.toInt).toNat) (by omega)
      have hresult := hloop.result h hlo
      rw [hok] at hresult
      cases hresult with
      | ok hschema hreduced hfit =>
          refine ⟨rounds, by omega, ?_, hreduced, hschema⟩
          rw [LimitRounds, if_neg hne]
          simpa [FirstFit] using hfit
  · next hzero =>
      cases hok
      have hzero' : bucketLimit = 0 := by
        rw [UInt32.lt_iff_toNat_lt, UInt32.toNat_zero] at hzero
        exact UInt32.toNat_inj.mp (by rw [UInt32.toNat_zero]; omega)
      exact ⟨0, by omega, by rw [LimitRounds, if_pos hzero'], Reduced.refl h, by simp⟩

theorem LimitRounds.of_reduced {bucketLimit : UInt32} {histogram histogram' : Histogram} {m k : Nat}
    (h : ∀ side, SideValid histogram side) (hreduced : Reduced m histogram histogram')
    (hrounds : LimitRounds bucketLimit histogram' 0 k) :
    LimitRounds bucketLimit histogram m k := by
  simpa only [LimitRounds, Nat.zero_add, hreduced.coarseCount h] using hrounds

/-- What a result says about the checks. -/
theorem nativeHistogram_checked {exposed : Dto.Histogram} {gauge : Bool} {bucketLimit : UInt32}
    {returned : Histogram} (hok : nativeHistogram exposed gauge bucketLimit = .ok returned) :
    schemaMin ≤ exposed.schema.getD 0 ∧ SidesValidated (exposedHistogram exposed gauge) := by
  rw [nativeHistogram] at hok
  split at hok
  · cases hok
  · next hmin =>
      obtain ⟨_, hnegative, hok⟩ := bind_eq_ok.mp hok
      obtain ⟨_, hpositive, hok⟩ := bind_eq_ok.mp hok
      constructor
      · rw [Int32.lt_iff_toInt_lt] at hmin
        rw [Int32.le_iff_toInt_le]
        omega
      · intro side
        cases side with
        | negative => exact hnegative
        | positive => exact hpositive

/-- The reduction to schema 8 and what it leaves to the limit loop. -/
theorem nativeHistogram_first {exposed : Dto.Histogram} {gauge : Bool} {bucketLimit : UInt32}
    {returned : Histogram} (hok : nativeHistogram exposed gauge bucketLimit = .ok returned)
    (hlarge : 8 < (exposed.schema.getD 0).toInt) :
    ∃ histogram, reduceResolution (exposedHistogram exposed gauge) schemaMax = .ok histogram ∧
      limitedHistogram histogram bucketLimit = .ok returned := by
  obtain ⟨hmin, hvalid⟩ := nativeHistogram_checked hok
  have hmax : schemaMax < exposed.schema.getD 0 := by
    rw [Int32.lt_iff_toInt_lt]
    exact hlarge
  rw [nativeHistogram_eq hmin hvalid, if_pos hmax] at hok
  exact bind_eq_ok.mp hok

/-- **A returned histogram is the exposed one, coarsened by the shift of the first reduction and the
rounds of the limit loop**, unless a span got longer than its length can say. -/
theorem nativeHistogram_reduced {exposed : Dto.Histogram} {gauge : Bool} {bucketLimit : UInt32}
    {returned : Histogram} (hok : nativeHistogram exposed gauge bucketLimit = .ok returned)
    (hsmall : 8 < (exposed.schema.getD 0).toInt → ∀ side,
      (coarsened (firstShift (exposed.schema.getD 0))
        ((exposedHistogram exposed gauge).indices side)).length < 2 ^ 32) :
    ∃ k ≤ 12, LimitRounds bucketLimit (exposedHistogram exposed gauge)
        (firstShift (exposed.schema.getD 0)) k ∧
      Reduced (firstShift (exposed.schema.getD 0) + k) (exposedHistogram exposed gauge) returned ∧
      returned.schema.toInt + k = min (exposed.schema.getD 0).toInt 8 := by
  obtain ⟨hmin, hvalid⟩ := nativeHistogram_checked hok
  have hminInt : schemaMin.toInt = -4 := rfl
  have hmaxInt : schemaMax.toInt = 8 := rfl
  have hmin' := Int32.le_iff_toInt_le.mp hmin
  by_cases hlarge : schemaMax < exposed.schema.getD 0
  · have hlarge' := Int32.lt_iff_toInt_lt.mp hlarge
    have hfirst : firstShift (exposed.schema.getD 0) =
        shiftAmount ((exposedHistogram exposed gauge).schema - schemaMax) := if_pos hlarge
    obtain ⟨histogram, hreduce, hlimited⟩ := nativeHistogram_first hok (by omega)
    have hsmall := hsmall (by omega)
    rw [hfirst] at hsmall ⊢
    obtain ⟨hschema, hreduced⟩ := reduceResolution_reduced hreduce hvalid.valid hsmall
    obtain ⟨k, hk, hrounds, hreduced', hschema'⟩ := limitedHistogram_reduced hreduced.valid
      (by rw [hschema]; decide) (by rw [hschema]; decide) hlimited
    refine ⟨k, hk, hrounds.of_reduced hvalid.valid hreduced, hreduced.trans hvalid.valid hreduced',
      ?_⟩
    rw [hschema', hschema]
    omega
  · have hfirst : firstShift (exposed.schema.getD 0) = 0 := if_neg hlarge
    rw [Int32.lt_iff_toInt_lt] at hlarge
    rw [nativeHistogram_eq hmin hvalid, if_neg (by rw [Int32.lt_iff_toInt_lt]; exact hlarge)] at hok
    obtain ⟨k, hk, hrounds, hreduced, hschema⟩ := limitedHistogram_reduced hvalid.valid hmin'
      (by show (exposed.schema.getD 0).toInt ≤ 8; omega) hok
    refine ⟨k, hk, ?_, ?_, ?_⟩
    · rw [hfirst]
      exact hrounds
    · rw [hfirst, Nat.zero_add]
      exact hreduced
    · rw [hschema]
      show (exposed.schema.getD 0).toInt = _
      omega

/-! ## A side with every index

Without a shift (amount 64, say), the `2 ^ 32` buckets of a full side go to one span, whose length
wraps to 0. -/

theorem mergeBuckets_of_empty {α : Type} {add : α → α → α} {shift : Int32} {spans : List BucketSpan}
    {counts : List α} (h : spanIndices 0 spans = []) :
    mergeBuckets add spans counts shift = .ok ([], []) := by
  rw [mergeBuckets_eq, h]
  rfl

theorem indices_eq_indexRun {indices : List Int} {n : Nat} (hn : n + 1 = 2 ^ 32)
    (hsorted : indices.Pairwise (· < ·)) (hbound : ∀ i ∈ indices, -2 ^ 31 ≤ i ∧ i < 2 ^ 31)
    (hlarge : 2 ^ 32 ≤ indices.length) : indices = indexRun (-2 ^ 31) n ++ [2 ^ 31 - 1] := by
  have hend : (-2 ^ 31 + (n : Int)) = 2 ^ 31 - 1 := by omega
  rw [← hend, ← indexRun_succ]
  refine SortedSearch.eq_of_mem_iff hsorted (indexRun_pairwise _ _) fun i => ?_
  have hsub : indices.toFinset ⊆ Finset.Ico (-2 ^ 31 : Int) (2 ^ 31) := fun i hi =>
    Finset.mem_Ico.mpr (hbound i (List.mem_toFinset.mp hi))
  have hcard : (Finset.Ico (-2 ^ 31 : Int) (2 ^ 31)).card ≤ indices.toFinset.card := by
    rw [List.toFinset_card_of_nodup (hsorted.imp ne_of_lt), Int.card_Ico]
    omega
  rw [← List.mem_toFinset, Finset.eq_of_subset_of_card_le hsub hcard, Finset.mem_Ico, mem_indexRun]
  omega

/-- Consecutive indices come out in one span. -/
theorem canonical_indexRun {spans : List BucketSpan} {first : Int} {n : Nat}
    (h : Canonical spans) (hindices : spanIndices 0 spans = indexRun first n)
    (hfirst : -2 ^ 31 ≤ first ∧ first < 2 ^ 31) (hpos : 0 < n) (hn : n < 2 ^ 32) :
    ∃ span : BucketSpan, spans = [span] ∧ span.offset.toInt = first ∧ span.length.toNat = n := by
  have hlength : (UInt32.ofNat n).toNat = n := UInt32.toNat_ofNat_of_lt' hn
  refine ⟨⟨Int32.ofInt first, UInt32.ofNat n⟩, ?_, Int32.toInt_ofInt_of_le hfirst.1 hfirst.2,
    hlength⟩
  have hsingle : Canonical [⟨Int32.ofInt first, UInt32.ofNat n⟩] := by
    refine ⟨fun span hspan => ?_, by simp⟩
    rw [List.mem_singleton] at hspan
    subst hspan
    show 0 < (UInt32.ofNat n).toNat
    omega
  refine h.eq_of_spanIndices hsingle (hindices.trans ?_)
  simp only [spanIndices, hlength, Int32.toInt_ofInt_of_le hfirst.1 hfirst.2, List.append_nil,
    Int.zero_add]

/-- A bucket next to the last one makes the last span longer. -/
theorem mergeBucket_adjacent {α : Type} {add : α → α → α} {shift : Int32} {st st' : MergeState α}
    {last : Int} (hlast : st.last = some last)
    (hnext : last + 1 = coarseIndex (shiftAmount shift) st.index)
    (hok : mergeBucket add shift st = .ok st') :
    st'.outSpans = modifyLast (fun span => { span with length := span.length + 1 }) st.outSpans := by
  obtain ⟨c, rest, -, hstep⟩ := mergeBucket_step hnext hok
  cases hstep with
  | next _ _ => rfl
  | first hnone _ => simp [hlast] at hnone
  | same hlast' =>
      rw [hlast, Option.some.injEq] at hlast'
      omega
  | apart hlast' _ hnext' _ =>
      rw [hlast, Option.some.injEq] at hlast'
      omega

/-- What consecutive unshifted buckets come out as. -/
theorem mergeIndices_indexRun {α : Type} {add : α → α → α} {shift : Int32} {counts : List α}
    {st : MergeState α} {first : Int} {n : Nat} (hfirst : -2 ^ 31 ≤ first ∧ first < 2 ^ 31)
    (hn : n + 1 < 2 ^ 32) (hshift : shiftAmount shift = 0)
    (hok : mergeIndices add shift (indexRun first (n + 1)) ⟨[], [], counts, 0, none⟩ = .ok st) :
    st.last = some (first + n) ∧
      ∃ span : BucketSpan, st.outSpans = [span] ∧ span.offset.toInt = first ∧
        span.length.toNat = n + 1 := by
  have hsorted := indexRun_pairwise first (n + 1)
  have hlen : (MergeRuns.mergeRuns add
      (coarsePairs (shiftAmount shift) (indexRun first (n + 1)) counts)).length < 2 ^ 32 := by
    refine lt_of_le_of_lt MergeRuns.length_mergeRuns_le ?_
    rw [coarsePairs, List.length_zip, List.length_map, length_indexRun]
    omega
  obtain ⟨hlength, hemitted⟩ := mergeIndices_emits (Emitted.init counts 0) (hsorted.imp le_of_lt)
    (by simp) hlen hok
  have hkeys : (coarsePairs (shiftAmount shift) (indexRun first (n + 1)) counts).map Prod.fst =
      indexRun first (n + 1) := by
    rw [coarsePairs_keys hlength, hshift, show coarseIndex 0 = id from funext coarseIndex_zero,
      List.map_id]
  have hemitted : Emitted (MergeRuns.mergeRuns add
      (coarsePairs (shiftAmount shift) (indexRun first (n + 1)) counts)) st := hemitted
  have hindices : spanIndices 0 st.outSpans = indexRun first (n + 1) := by
    rw [hemitted.indices]
    refine SortedSearch.eq_of_mem_iff (MergeRuns.mergeRuns_pairwise ?_) hsorted fun i => ?_
    · rw [hkeys]
      exact hsorted.imp le_of_lt
    · rw [MergeRuns.mem_keys_mergeRuns, hkeys]
  constructor
  · rw [hemitted.last, MergeRuns.getLast?_mergeRuns_key, ← List.getLast?_map, hkeys, indexRun_succ,
      List.getLast?_concat]
  · exact canonical_indexRun hemitted.canonical hindices hfirst (Nat.succ_pos n) hn

/-- **A full side that is not shifted comes out in one span of length 0.** -/
theorem mergeBuckets_full {α : Type} {add : α → α → α} {shift : Int32} {spans : List BucketSpan}
    {counts : List α} {out : List BucketSpan × List α} (hin : InRange spans)
    (hlarge : 2 ^ 32 ≤ (spanIndices 0 spans).length) (hshift : shiftAmount shift = 0)
    (hok : mergeBuckets add spans counts shift = .ok out) :
    ∃ span : BucketSpan, out.1 = [span] ∧ span.offset.toInt = -2 ^ 31 ∧ span.length.toNat = 0 := by
  obtain ⟨n, hn⟩ : ∃ n, n + 2 = 2 ^ 32 := ⟨2 ^ 32 - 2, by omega⟩
  rw [mergeBuckets_eq, indices_eq_indexRun (n := n + 1) hn hin.ascending hin.bounds hlarge,
    mergeIndices_append] at hok
  obtain ⟨st', hst', rfl⟩ := map_eq_ok.mp hok
  obtain ⟨st, hst, hst'⟩ := bind_eq_ok.mp hst'
  obtain ⟨st₁, hst₁, hst'⟩ := bind_eq_ok.mp hst'
  cases hst'
  obtain ⟨hlast, span, hspans, hoffset, hlength⟩ :=
    mergeIndices_indexRun (by omega) (by omega) hshift hst
  have hnext : -2 ^ 31 + (n : Int) + 1 = coarseIndex (shiftAmount shift) (2 ^ 31 - 1) := by
    rw [hshift, coarseIndex_zero]
    omega
  have hlast' : { st with index := 2 ^ 31 - 1 : MergeState α }.last = some _ := hlast
  have hgrown := mergeBucket_adjacent hlast' hnext hst₁
  rw [show { st with index := 2 ^ 31 - 1 : MergeState α }.outSpans = [] ++ [span] from hspans,
    modifyLast_concat] at hgrown
  refine ⟨_, hgrown, hoffset, ?_⟩
  rw [UInt32.toNat_add, hlength]
  show (n + 1 + 1) % 2 ^ 32 = 0
  omega

theorem spanIndices_length_zero {span : BucketSpan} (h : span.length.toNat = 0) :
    spanIndices 0 [span] = [] := by
  simp only [spanIndices, h, indexRun, List.append_nil]

/-- The spans of a side are those of a merge, whatever the representation. -/
theorem reduceSide_spans {P : List BucketSpan → Prop} {shift : Int32} {spans : List BucketSpan}
    {deltas : List Int64} {counts : List F64} {r : List BucketSpan × List Int64 × List F64}
    (hmerge : ∀ {α : Type} (add : α → α → α) (counts : List α) (out : List BucketSpan × List α),
      mergeBuckets add spans counts shift = .ok out → P out.1)
    (hok : reduceSide shift spans deltas counts = .ok r) : P r.1 := by
  rw [reduceSide] at hok
  split at hok
  · obtain ⟨out, hout, rfl⟩ := map_eq_ok.mp hok
    exact hmerge _ _ out hout
  · obtain ⟨out, hout, rfl⟩ := map_eq_ok.mp hok
    exact hmerge _ _ out hout

theorem reduceResolution_empty {histogram histogram' : Histogram} {target : Int32} {side : Side}
    (hok : reduceResolution histogram target = .ok histogram')
    (h : histogram.indices side = []) : histogram'.indices side = [] := by
  refine reduceSide_spans (P := fun spans => spanIndices 0 spans = []) ?_
    ((reduceResolution_iff.mp hok).1 side)
  intro α add counts out hout
  rw [mergeBuckets_of_empty h] at hout
  cases hout
  rfl

theorem limitBuckets_empty {limit n : Nat} {histogram returned : Histogram} {side : Side}
    (hok : limitBuckets limit n histogram = .ok returned)
    (h : histogram.indices side = []) : returned.indices side = [] := by
  induction n generalizing histogram with
  | zero =>
      rw [limitBuckets] at hok
      split at hok
      · cases hok
        exact h
      · cases hok
  | succ n ih =>
      rw [limitBuckets] at hok
      split at hok
      · cases hok
        exact h
      · obtain ⟨histogram', hreduce, hok⟩ := bind_eq_ok.mp hok
        exact ih hok (reduceResolution_empty hreduce h)

/-- A full side whose first reduction does not shift is returned empty. -/
theorem nativeHistogram_full {exposed : Dto.Histogram} {gauge : Bool} {bucketLimit : UInt32}
    {returned : Histogram} (hok : nativeHistogram exposed gauge bucketLimit = .ok returned)
    (hlarge : 8 < (exposed.schema.getD 0).toInt) (hshift : firstShift (exposed.schema.getD 0) = 0)
    {side : Side} (hfull : 2 ^ 32 ≤ ((exposedHistogram exposed gauge).indices side).length) :
    returned.indices side = [] := by
  obtain ⟨-, hvalid⟩ := nativeHistogram_checked hok
  obtain ⟨histogram, hreduce, hlimited⟩ := nativeHistogram_first hok hlarge
  have hmax : schemaMax < exposed.schema.getD 0 := by
    rw [Int32.lt_iff_toInt_lt]
    exact hlarge
  have hamount : shiftAmount ((exposedHistogram exposed gauge).schema - schemaMax) = 0 := by
    rw [← hshift]
    exact (if_pos hmax).symm
  have hin := (hvalid.valid side).inRange
  have hempty : histogram.indices side = [] := by
    refine reduceSide_spans (P := fun spans => spanIndices 0 spans = []) ?_
      ((reduceResolution_iff.mp hreduce).1 side)
    intro α add counts out hout
    obtain ⟨span, hout, -, hlength⟩ := mergeBuckets_full hin hfull hamount hout
    rw [hout]
    exact spanIndices_length_zero hlength
  rw [limitedHistogram] at hlimited
  split at hlimited
  · exact limitBuckets_empty hlimited hempty
  · cases hlimited
    exact hempty

/-! ## The condition -/

/-- The returned spans describe the exposed buckets, coarsened from one schema to the other. -/
structure FloorDescribed (exposed returned : Histogram) : Prop where
  schema_le : returned.schema.toInt ≤ exposed.schema.toInt
  schema_max : returned.schema.toInt ≤ 8
  indices : ∀ side j, j ∈ returned.indices side ↔
    ∃ i ∈ exposed.indices side,
      coarseIndex (exposed.schema.toInt - returned.schema.toInt).toNat i = j

/-- The schema is small enough for the shift, or the shift that is left of it, with the rounds of the
limit loop, makes every bucket central. -/
def MaskHarmless (bucketLimit : UInt32) (exposed : Histogram) : Prop :=
  exposed.schema.toInt ≤ 71 ∨
    ∃ k ≤ 12, LimitRounds bucketLimit exposed (firstShift exposed.schema) k ∧
      ∀ side, ∀ i ∈ exposed.indices side, Central (firstShift exposed.schema + k) i

theorem firstShift_eq {schema : Int32} (h : 8 < schema.toInt) :
    firstShift schema = ((schema.toInt - 8) % 64).toNat := by
  have hhi := schema.toInt_lt
  have hmaxInt : schemaMax.toInt = 8 := rfl
  have hmax : schemaMax < schema := by
    rw [Int32.lt_iff_toInt_lt]
    omega
  rw [firstShift, if_pos hmax, shiftAmount, Int32.toInt_sub, hmaxInt,
    Int.bmod_eq_of_le (by omega) (by omega)]

theorem firstShift_of_le {schema : Int32} (h : schema.toInt ≤ 8) : firstShift schema = 0 := by
  refine if_neg ?_
  rw [Int32.lt_iff_toInt_lt, not_lt]
  exact h

theorem Reduced.floorDescribed_iff {exposed returned : Histogram} {n : Nat}
    (hreduced : Reduced n exposed returned) (hle : returned.schema.toInt ≤ exposed.schema.toInt)
    (hmax : returned.schema.toInt ≤ 8) :
    FloorDescribed exposed returned ↔ ∀ side j, j ∈ coarsened n (exposed.indices side) ↔
      ∃ i ∈ exposed.indices side,
        coarseIndex (exposed.schema.toInt - returned.schema.toInt).toNat i = j := by
  constructor
  · intro h side j
    rw [← hreduced.indices, h.indices]
  · intro h
    refine ⟨hle, hmax, fun side j => ?_⟩
    rw [hreduced.indices, h]

/-- Without an overflow, only the mask matters. -/
theorem floorDescribed_of_reduced {exposed returned : Histogram} {bucketLimit : UInt32} {k : Nat}
    (hbounds : ∀ side, ∀ i ∈ exposed.indices side, -2 ^ 31 ≤ i ∧ i < 2 ^ 31) (hk : k ≤ 12)
    (hrounds : LimitRounds bucketLimit exposed (firstShift exposed.schema) k)
    (hreduced : Reduced (firstShift exposed.schema + k) exposed returned)
    (hschema : returned.schema.toInt + k = min exposed.schema.toInt 8) :
    FloorDescribed exposed returned ↔ MaskHarmless bucketLimit exposed := by
  rw [hreduced.floorDescribed_iff (by omega) (by omega)]
  rcases Int.lt_or_le 71 exposed.schema.toInt with hmasked | hunmasked
  · have hfirst : firstShift exposed.schema = _ := firstShift_eq (by omega)
    have hcongr := fun side => coarsened_congr_iff (hbounds side)
      (a := firstShift exposed.schema + k)
      (b := (exposed.schema.toInt - returned.schema.toInt).toNat) (by omega) (by omega)
    simp only [hcongr, MaskHarmless]
    constructor
    · intro h
      exact .inr ⟨k, hk, hrounds, h⟩
    · rintro (hsmall | ⟨k', -, hrounds', hcentral⟩)
      · omega
      · rwa [hrounds.unique hrounds']
  · -- the whole difference of the schemas is shifted
    have hshift : (exposed.schema.toInt - returned.schema.toInt).toNat =
        firstShift exposed.schema + k := by
      rcases Int.lt_or_le 8 exposed.schema.toInt with hlarge | hlow
      · rw [firstShift_eq hlarge]
        omega
      · rw [firstShift_of_le hlow]
        omega
    refine iff_of_true (fun side j => ?_) (.inl hunmasked)
    rw [hshift, mem_coarsened]

/-- A full side is neither described by what is returned, nor are all its buckets central. -/
theorem floorDescribed_of_full {exposed returned : Histogram} {bucketLimit : UInt32} {side : Side}
    (hsorted : (exposed.indices side).Pairwise (· < ·))
    (hfull : 2 ^ 32 ≤ (exposed.indices side).length) (hlarge : 71 < exposed.schema.toInt)
    (hfirst : firstShift exposed.schema = 0) (hempty : returned.indices side = []) :
    FloorDescribed exposed returned ↔ MaskHarmless bucketLimit exposed := by
  refine iff_of_false (fun h => ?_) ?_
  · obtain ⟨i, hi⟩ := List.exists_mem_of_length_pos (l := exposed.indices side) (by omega)
    have hmem := (h.indices side _).mpr ⟨i, hi, rfl⟩
    rw [hempty] at hmem
    cases hmem
  · rintro (hsmall | ⟨k, hk, -, hcentral⟩)
    · omega
    · have hpow : (2 : Int) ^ k ≤ 2 ^ 12 := pow_le_pow_right₀ (by omega) hk
      have hbound : ∀ i ∈ exposed.indices side, 1 - 2 ^ 12 ≤ i ∧ i ≤ 2 ^ 12 := by
        intro i hi
        have hi' := hcentral side i hi
        rw [hfirst, Nat.zero_add, Central] at hi'
        omega
      have hle := length_le_of_ascending hsorted hbound
      omega

/-- **The returned spans describe the exposed buckets, coarsened, exactly when the mask of the shift
amount is harmless.** -/
theorem nativeHistogram_indices_iff {exposed : Dto.Histogram} {gauge : Bool} {bucketLimit : UInt32}
    {returned : Histogram} (hok : nativeHistogram exposed gauge bucketLimit = .ok returned) :
    FloorDescribed (exposedHistogram exposed gauge) returned ↔
      MaskHarmless bucketLimit (exposedHistogram exposed gauge) := by
  obtain ⟨-, hvalid⟩ := nativeHistogram_checked hok
  by_cases hsmall : 8 < (exposed.schema.getD 0).toInt → ∀ side,
      (coarsened (firstShift (exposed.schema.getD 0))
        ((exposedHistogram exposed gauge).indices side)).length < 2 ^ 32
  · obtain ⟨k, hk, hrounds, hreduced, hschema⟩ := nativeHistogram_reduced hok hsmall
    exact floorDescribed_of_reduced (fun side => (hvalid.valid side).inRange.bounds) hk hrounds
      hreduced hschema
  · push Not at hsmall
    obtain ⟨hlarge, side, hfull⟩ := hsmall
    have hfirst : firstShift (exposed.schema.getD 0) = 0 := by
      by_contra hne
      exact absurd ((hvalid.valid side).inRange.length_coarsened_lt
        (Nat.one_le_iff_ne_zero.mpr hne))
        (not_lt.mpr hfull)
    have hsorted := (hvalid.valid side).ascending
    rw [hfirst, coarsened_zero hsorted] at hfull
    refine floorDescribed_of_full hsorted hfull ?_ hfirst (nativeHistogram_full hok hlarge hfirst hfull)
    show 71 < (exposed.schema.getD 0).toInt
    rw [firstShift_eq hlarge] at hfirst
    omega

/-- One bucket, of index 2, at schema 72. -/
def schema72 : Dto.Histogram :=
  { Dto.Histogram.default with
    sampleCount := some 1
    schema := some 72
    positiveSpan := [⟨some 2, some 1⟩]
    positiveDelta := [1] }

/-- Its bucket belongs to bucket 1 of schema 8, but stays bucket 2. -/
theorem schema72_misplaced : ∃ returned, nativeHistogram schema72 false 0 = .ok returned ∧
    ¬ FloorDescribed (exposedHistogram schema72 false) returned := by
  refine ⟨{ exposedHistogram schema72 false with schema := 8 }, by decide, fun h => ?_⟩
  obtain ⟨i, hi, heq⟩ := (h.indices .positive 2).mp (by decide)
  rw [show (exposedHistogram schema72 false).indices .positive = [2] from by decide,
    List.mem_singleton] at hi
  subst hi
  rw [show ((exposedHistogram schema72 false).schema.toInt - (8 : Int32).toInt).toNat = 64
    from by decide, coarseIndex] at heq
  norm_num at heq

theorem nativeHistogram_indices_iff_schema72 : ∃ returned,
    nativeHistogram schema72 false 0 = .ok returned ∧
      (FloorDescribed (exposedHistogram schema72 false) returned ↔
        MaskHarmless 0 (exposedHistogram schema72 false)) := by
  have hok : nativeHistogram schema72 false 0 =
      .ok { exposedHistogram schema72 false with schema := 8 } := by decide
  exact ⟨_, hok, nativeHistogram_indices_iff hok⟩

end PromScrape
