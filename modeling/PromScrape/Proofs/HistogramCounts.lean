import PromScrape.Proofs.SchemaReduction

set_option autoImplicit false

/-! # Which bucket counts survive the reductions

The checks bound every exposed count, but a merge adds counts, and these sums are not checked. As long
as the exact sums stay below `2 ^ 63`, the `i64` counts are the exact ones. -/

namespace PromScrape

open Fallible (bind_eq_ok map_eq_ok)
open MergeRuns (mergeRuns pushRun)

/-! ## Exact counts -/

/-- Running sums, without a bound. -/
def exactCounts : Int → List Int64 → List Int
  | _, [] => []
  | count, delta :: rest => (count + delta.toInt) :: exactCounts (count + delta.toInt) rest

theorem length_exactCounts (count : Int) (deltas : List Int64) :
    (exactCounts count deltas).length = deltas.length := by
  induction deltas generalizing count with
  | nil => rfl
  | cons delta rest ih => rw [exactCounts, List.length_cons, ih, List.length_cons]

/-- The wrapping sums are the exact ones, wrapped. -/
theorem absoluteCounts_eq_exact (count : Int) (deltas : List Int64) :
    absoluteCounts (Int64.ofInt count) deltas = (exactCounts count deltas).map Int64.ofInt := by
  induction deltas generalizing count with
  | nil => rfl
  | cons delta rest ih =>
      have hsum : Int64.ofInt count + delta = Int64.ofInt (count + delta.toInt) := by
        rw [Int64.ofInt_add, Int64.ofInt_toInt]
      rw [absoluteCounts, exactCounts, hsum, ih, List.map_cons]

/-- Differences and running sums are inverse, also when they wrap. -/
theorem absoluteCounts_deltasOf (previous : Int64) (counts : List Int64) :
    absoluteCounts previous (deltasOf previous counts) = counts := by
  induction counts generalizing previous with
  | nil => rfl
  | cons count rest ih =>
      rw [deltasOf, absoluteCounts, Int64.add_comm, Int64.sub_add_cancel, ih]

/-- The exact running sums of the differences of small counts. -/
theorem exactCounts_deltasOf {previous : Int} {values : List ℕ}
    (hprevious : 0 ≤ previous ∧ previous < 2 ^ 63) (hvalues : ∀ v ∈ values, v < 2 ^ 63) :
    exactCounts previous (deltasOf (Int64.ofInt previous) (values.map Int64.ofNat)) =
      values.map Int.ofNat := by
  induction values generalizing previous with
  | nil => rfl
  | cons v rest ih =>
      have hv := hvalues v List.mem_cons_self
      have hdelta : (Int64.ofNat v - Int64.ofInt previous).toInt = v - previous := by
        rw [Int64.toInt_sub, Int64.toInt_ofNat_of_lt hv,
          Int64.toInt_ofInt_of_le (by omega) hprevious.2, Int.bmod_eq_of_le (by omega) (by omega)]
      have hsum : previous + (Int64.ofNat v - Int64.ofInt previous).toInt = v := by
        rw [hdelta]
        omega
      rw [List.map_cons, deltasOf, exactCounts, hsum, List.map_cons, ← Int64.ofInt_eq_ofNat,
        ih (by omega) fun w hw => hvalues w (List.mem_cons_of_mem _ hw)]
      rfl

/-! ## Safe reductions -/

/-- `i64` addition that notices an overflow. -/
def checkedAdd : Option Int64 → Option Int64 → Option Int64
  | some a, some b =>
      if -2 ^ 63 ≤ a.toInt + b.toInt ∧ a.toInt + b.toInt < 2 ^ 63 then some (a + b) else none
  | _, _ => none

/-- The positions that `index` takes over `spans`. -/
def spanPositions : Int → List BucketSpan → List Int
  | _, [] => []
  | next, span :: rest =>
      indexRun (next + span.offset.toInt) (span.length.toNat + 1) ++
        spanPositions (next + span.offset.toInt + span.length.toNat) rest

/-- The exact sum of some counts. -/
def totalCount (counts : List Int64) : Int := (counts.map Int64.toInt).sum

/-- The reduction of one side of an integer histogram overflows no `i64` addition, returns counts that
are not negative, and keeps their total. -/
structure SafeSide (shift : Int32) (spans : List BucketSpan) (deltas : List Int64) : Prop where
  positions : ∀ i ∈ spanPositions 0 spans, -2 ^ 63 ≤ i ∧ i < 2 ^ 63
  targets : ∀ i ∈ spanIndices 0 spans,
    -2 ^ 63 ≤ coarseIndex (shiftAmount shift) i ∧ coarseIndex (shiftAmount shift) i + 1 < 2 ^ 63
  running : ∀ c ∈ exactCounts 0 deltas, -2 ^ 63 ≤ c ∧ c < 2 ^ 63
  /-- At no point of the loop has a merged count overflowed. -/
  merging : ∀ is, is <+: spanIndices 0 spans → ∀ st,
    mergeIndices checkedAdd shift is ⟨[], [], (absoluteCounts 0 deltas).map some, 0, none⟩ = .ok st →
      none ∉ st.outCounts
  returned : ∀ r, reduceSide shift spans deltas [] = .ok r →
    (∀ c ∈ absoluteCounts 0 r.2.1, 0 ≤ c.toInt) ∧
      totalCount (absoluteCounts 0 r.2.1) = totalCount (absoluteCounts 0 deltas)

def SafeReduction (histogram : Histogram) (target : Int32) : Prop :=
  ∀ side, SafeSide (histogram.schema - target) (histogram.spansOf side) (histogram.deltasOf side)

/-- The reductions of the limit loop, each with the histogram that it is made on. -/
def limitReductions (limit : Nat) : Nat → Histogram → List (Histogram × Int32)
  | n, histogram =>
      if bucketLen histogram .negative + bucketLen histogram .positive ≤ limit then []
      else
        match n with
        | 0 => []
        | n + 1 =>
            (histogram, histogram.schema - 1) ::
              match reduceResolution histogram (histogram.schema - 1) with
              | .ok histogram => limitReductions limit n histogram
              | .error _ => []

def limitedReductions (histogram : Histogram) (bucketLimit : UInt32) : List (Histogram × Int32) :=
  if 0 < bucketLimit then
    limitReductions bucketLimit.toNat (histogram.schema.toInt - schemaMin.toInt).toNat histogram
  else []

/-- The reductions that `native_histogram` makes on a histogram that has passed the checks. -/
def nativeReductions (histogram : Histogram) (bucketLimit : UInt32) : List (Histogram × Int32) :=
  if histogram.schema < schemaMin then []
  else if schemaMax < histogram.schema then
    (histogram, schemaMax) ::
      match reduceResolution histogram schemaMax with
      | .ok histogram => limitedReductions histogram bucketLimit
      | .error _ => []
  else limitedReductions histogram bucketLimit

/-- The last reduction gives `returned`; without one it is `histogram`. -/
def EndsIn (histogram returned : Histogram) (reductions : List (Histogram × Int32)) : Prop :=
  match reductions.getLast? with
  | none => returned = histogram
  | some r => reduceResolution r.1 r.2 = .ok returned

theorem EndsIn.cons {histogram histogram' returned : Histogram} {target : Int32}
    {reductions : List (Histogram × Int32)} (h : EndsIn histogram' returned reductions)
    (hok : reduceResolution histogram target = .ok histogram') :
    EndsIn histogram returned ((histogram, target) :: reductions) := by
  cases reductions with
  | nil =>
      show reduceResolution histogram target = .ok returned
      rw [show returned = histogram' from h]
      exact hok
  | cons r rest =>
      rw [EndsIn, List.getLast?_cons_cons]
      rw [EndsIn] at h
      cases hlast : (r :: rest).getLast? with
      | none => simp at hlast
      | some last =>
          rw [hlast] at h
          exact h

theorem limitReductions_endsIn {limit n : Nat} {histogram returned : Histogram}
    (hok : limitBuckets limit n histogram = .ok returned) :
    EndsIn histogram returned (limitReductions limit n histogram) := by
  induction n generalizing histogram with
  | zero =>
      rw [limitBuckets] at hok
      split at hok
      · next hfits =>
          cases hok
          rw [limitReductions, if_pos hfits]
          exact rfl
      · cases hok
  | succ n ih =>
      rw [limitBuckets] at hok
      split at hok
      · next hfits =>
          cases hok
          rw [limitReductions, if_pos hfits]
          exact rfl
      · next hover =>
          obtain ⟨histogram', hreduce, hok⟩ := bind_eq_ok.mp hok
          rw [limitReductions, if_neg hover]
          simp only [hreduce]
          exact (ih hok).cons hreduce

theorem limitedReductions_endsIn {histogram returned : Histogram} {bucketLimit : UInt32}
    (hok : limitedHistogram histogram bucketLimit = .ok returned) :
    EndsIn histogram returned (limitedReductions histogram bucketLimit) := by
  rw [limitedHistogram] at hok
  rw [limitedReductions]
  split at hok
  · next hlimit =>
      rw [if_pos hlimit]
      exact limitReductions_endsIn hok
  · next hlimit =>
      cases hok
      rw [if_neg hlimit]
      exact rfl

/-- These are the reductions that lead to the result. -/
theorem nativeReductions_endsIn {exposed : Dto.Histogram} {gauge : Bool} {bucketLimit : UInt32}
    {returned : Histogram} (hok : nativeHistogram exposed gauge bucketLimit = .ok returned) :
    EndsIn (exposedHistogram exposed gauge) returned
      (nativeReductions (exposedHistogram exposed gauge) bucketLimit) := by
  obtain ⟨hmin, hvalid⟩ := nativeHistogram_checked hok
  have hmin' : ¬ (exposedHistogram exposed gauge).schema < schemaMin := by
    rw [Int32.lt_iff_toInt_lt, not_lt]
    exact Int32.le_iff_toInt_le.mp hmin
  rw [nativeHistogram_eq hmin hvalid] at hok
  obtain ⟨histogram, hfirst, hlimited⟩ := bind_eq_ok.mp hok
  rw [nativeReductions, if_neg hmin',
    show (exposedHistogram exposed gauge).schema = exposed.schema.getD 0 from rfl]
  split at hfirst
  · next hlarge =>
      rw [if_pos hlarge]
      simp only [hfirst]
      exact (limitedReductions_endsIn hlimited).cons hfirst
  · next hlow =>
      cases hfirst
      rw [if_neg hlow]
      exact limitedReductions_endsIn hlimited

/-! ## Counts that are merged -/

section

variable {α : Type} {add : α → α → α} {runs : List (Int × α)} {st st' : MergeState α} {t : Int}
  {c : α} {rest : List α} {shift : Int32}

/-- One bucket, its count. -/
theorem BucketStep.counts_eq (hstep : BucketStep add t c rest st st')
    (hlast : st.last = runs.getLast?.map Prod.fst) (hout : st.outCounts = runs.map Prod.snd) :
    st'.outCounts = (pushRun add runs (t, c)).map Prod.snd := by
  cases hstep with
  | first hlast' _ =>
      obtain rfl := MergeRuns.eq_nil_of_getLast?_key (hlast.symm.trans hlast')
      simp [hout]
  | same hlast' =>
      obtain ⟨init, v, rfl⟩ := MergeRuns.eq_concat_of_getLast?_key (hlast.symm.trans hlast')
      rw [MergeRuns.pushRun_same]
      simp [hout, modifyLast_concat]
  | next hlast' hnext =>
      obtain ⟨init, v, rfl⟩ := MergeRuns.eq_concat_of_getLast?_key (hlast.symm.trans hlast')
      rw [MergeRuns.pushRun_other (by omega), List.map_append, ← hout]
      rfl
  | apart hlast' hsame _ _ =>
      obtain ⟨init, v, rfl⟩ := MergeRuns.eq_concat_of_getLast?_key (hlast.symm.trans hlast')
      rw [MergeRuns.pushRun_other hsame, List.map_append, ← hout]
      rfl

/-- The counts that come out are the merged runs, whatever becomes of the spans. -/
theorem mergeIndices_counts {is : List Int} (hlast : st.last = runs.getLast?.map Prod.fst)
    (hout : st.outCounts = runs.map Prod.snd) (hok : mergeIndices add shift is st = .ok st') :
    st'.outCounts =
      ((coarsePairs (shiftAmount shift) is st.counts).foldl (pushRun add) runs).map Prod.snd := by
  induction is generalizing st runs with
  | nil =>
      cases hok
      exact hout
  | cons i is ih =>
      obtain ⟨st₁, hst₁, hok⟩ := bind_eq_ok.mp hok
      obtain ⟨c, rest, hcounts, hstep⟩ := mergeBucket_step rfl hst₁
      have hcounts : st.counts = c :: rest := hcounts
      obtain ⟨hrest, -, hlast₁⟩ := hstep.frame
      have hkey : st₁.last =
          (pushRun add runs (coarseIndex (shiftAmount shift) i, c)).getLast?.map Prod.fst := by
        rw [hlast₁, MergeRuns.getLast?_pushRun_key]
      rw [ih hkey (hstep.counts_eq hlast hout) hok, hrest, hcounts]
      rfl

/-- Counts that stand for exact ones come out as their exact sums. -/
theorem mergeIndices_exact {α : Type} {add : α → α → α} {f : ℕ → α}
    (hf : ∀ a b, f (a + b) = add (f a) (f b)) {shift : Int32} {is : List Int} {values : List ℕ}
    {st : MergeState α}
    (hok : mergeIndices add shift is ⟨[], [], values.map f, 0, none⟩ = .ok st) :
    st.outCounts =
      ((mergeRuns (· + ·) (coarsePairs (shiftAmount shift) is values)).map Prod.snd).map f := by
  have hcounts : st.outCounts = (mergeRuns add (coarsePairs _ is (values.map f))).map Prod.snd :=
    mergeIndices_counts rfl rfl hok
  rw [hcounts, coarsePairs_map_counts, MergeRuns.mergeRuns_map_values hf, List.map_map,
    List.map_map]
  rfl

end

/-! ## Exact sums and machine words -/

/-- A count as an `i64`, if it is one. -/
def fitCount (v : ℕ) : Option Int64 := if v < 2 ^ 63 then some (Int64.ofNat v) else none

theorem fitCount_add (a b : ℕ) : fitCount (a + b) = checkedAdd (fitCount a) (fitCount b) := by
  unfold fitCount
  by_cases ha : a < 2 ^ 63
  · by_cases hb : b < 2 ^ 63
    · rw [if_pos ha, if_pos hb, checkedAdd, Int64.toInt_ofNat_of_lt ha, Int64.toInt_ofNat_of_lt hb,
        Int64.ofNat_add]
      exact if_congr (by omega) rfl rfl
    · rw [if_neg hb, if_neg (by omega), checkedAdd]
      simp
  · rw [if_neg ha, if_neg (by omega)]
    rfl

theorem fitCount_eq_none_iff {v : ℕ} : fitCount v = none ↔ 2 ^ 63 ≤ v := by
  unfold fitCount
  split
  · next h => exact iff_of_false (by simp) (not_le.mpr h)
  · next h => exact iff_of_true rfl (not_lt.mp h)

theorem map_fitCount {values : List ℕ} (h : ∀ v ∈ values, v < 2 ^ 63) :
    values.map fitCount = (values.map Int64.ofNat).map some := by
  rw [List.map_map]
  exact List.map_congr_left fun v hv => if_pos (h v hv)

theorem totalCount_ofNat {values : List ℕ} (h : ∀ v ∈ values, v < 2 ^ 63) :
    totalCount (values.map Int64.ofNat) = values.sum := by
  induction values with
  | nil => rfl
  | cons v rest ih =>
      have hrest := ih fun w hw => h w (List.mem_cons_of_mem _ hw)
      rw [totalCount] at hrest ⊢
      rw [List.map_cons, List.map_cons, List.sum_cons, hrest,
        Int64.toInt_ofNat_of_lt (h v List.mem_cons_self), List.sum_cons]
      push_cast
      rfl

/-! ## Positions -/

theorem spanPositions_bounds {side : Side} {i covered total : Nat} {spans : List BucketSpan}
    {next : Int} (h : validateSpans side i spans covered next = .ok total) :
    ∀ j ∈ spanPositions next spans, -2 ^ 31 ≤ j ∧ j ≤ 2 ^ 31 := by
  induction spans generalizing i covered next with
  | nil =>
      intro j hj
      cases hj
  | cons span rest ih =>
      obtain ⟨-, hlo, hhi, h⟩ := validateSpans_cons h
      intro j hj
      rw [spanPositions, List.mem_append] at hj
      rcases hj with hrun | hrest
      · have hmem := mem_indexRun.mp hrun
        push_cast at hmem
        omega
      · exact ih h j hrest

/-! ## One side -/

/-- `spans` and `deltas` pass the span checks and have the exact counts `values`. -/
structure ExactCounts (values : List ℕ) (spans : List BucketSpan) (deltas : List Int64) : Prop where
  checked : ∃ side covered, validateSpans side 0 spans 0 0 = .ok covered
  counts : exactCounts 0 deltas = values.map Int.ofNat
  small : ∀ v ∈ values, v < 2 ^ 63

theorem ExactCounts.inRange {values : List ℕ} {spans : List BucketSpan} {deltas : List Int64}
    (h : ExactCounts values spans deltas) : InRange spans := by
  obtain ⟨side, covered, hchecked⟩ := h.checked
  obtain ⟨-, hsorted, hbound, -⟩ := validateSpans_ok hchecked
  exact ⟨hsorted, hbound⟩

theorem ExactCounts.absolute {values : List ℕ} {spans : List BucketSpan} {deltas : List Int64}
    (h : ExactCounts values spans deltas) : absoluteCounts 0 deltas = values.map Int64.ofNat := by
  have heq := absoluteCounts_eq_exact 0 deltas
  rw [h.counts, List.map_map] at heq
  exact heq.trans (List.map_congr_left fun v _ => Int64.ofInt_eq_ofNat)

/-- What a reduction returns on one side. -/
theorem ExactCounts.of_reduceSide {values : List ℕ} {spans : List BucketSpan} {deltas : List Int64}
    {shift : Int32} (h : ExactCounts values spans deltas)
    {r : List BucketSpan × List Int64 × List F64}
    (hok : reduceSide shift spans deltas [] = .ok r) :
    ∃ out, mergeBuckets (· + ·) spans (values.map Int64.ofNat) shift = .ok out ∧
      r = (out.1, deltasOf 0 out.2, []) ∧
      out.2 = ((mergedRuns (· + ·) (shiftAmount shift) spans values).map Prod.snd).map
        Int64.ofNat := by
  obtain ⟨out, hout, rfl⟩ := map_eq_ok.mp hok
  rw [h.absolute] at hout
  refine ⟨out, hout, rfl, ?_⟩
  rw [mergeBuckets_eq] at hout
  obtain ⟨st, hst, rfl⟩ := map_eq_ok.mp hout
  exact mergeIndices_exact Int64.ofNat_add hst

section

variable {values : List ℕ} {spans : List BucketSpan} {deltas : List Int64} {shift : Int32}

theorem reduceSide_of_empty (hempty : spanIndices 0 spans = []) :
    reduceSide shift spans deltas [] = .ok ([], [], []) := by
  rw [reduceSide, if_pos List.isEmpty_nil, mergeBuckets_of_empty hempty]
  rfl

/-- Everything about a safe side that does not depend on its sums. -/
theorem ExactCounts.safeSide (h : ExactCounts values spans deltas)
    (hmerging : ∀ is, is <+: spanIndices 0 spans →
      ∀ v ∈ (mergeRuns (· + ·) (coarsePairs (shiftAmount shift) is values)).map Prod.snd, v < 2 ^ 63)
    (htotal : ((mergedRuns (· + ·) (shiftAmount shift) spans values).map Prod.snd).sum =
      values.sum) :
    SafeSide shift spans deltas where
  positions := by
    obtain ⟨side, covered, hchecked⟩ := h.checked
    intro i hi
    have hbound := spanPositions_bounds hchecked i hi
    omega
  targets := by
    intro i hi
    have hbound := h.inRange.bounds i hi
    have htarget := coarseIndex_inRange (shiftAmount shift) hbound.1 hbound.2
    omega
  running := by
    intro c hc
    rw [h.counts] at hc
    obtain ⟨v, hv, rfl⟩ := List.mem_map.mp hc
    have hsmall := h.small v hv
    show -2 ^ 63 ≤ (v : Int) ∧ (v : Int) < 2 ^ 63
    omega
  merging := by
    intro is his st hst
    rw [h.absolute, ← map_fitCount h.small] at hst
    rw [mergeIndices_exact fitCount_add hst]
    intro hmem
    obtain ⟨v, hv, hnone⟩ := List.mem_map.mp hmem
    exact absurd (hmerging is his v hv) (not_lt.mpr (fitCount_eq_none_iff.mp hnone))
  returned := by
    intro r hr
    obtain ⟨out, hout, rfl, hcounts⟩ := h.of_reduceSide hr
    have hsmall : ∀ v ∈ (mergedRuns (· + ·) (shiftAmount shift) spans values).map Prod.snd,
        v < 2 ^ 63 := hmerging _ (List.prefix_refl _)
    have habsolute : absoluteCounts 0 (deltasOf 0 out.2) =
        ((mergedRuns (· + ·) (shiftAmount shift) spans values).map Prod.snd).map Int64.ofNat := by
      rw [absoluteCounts_deltasOf, hcounts]
    simp only [habsolute, h.absolute]
    constructor
    · intro c hc
      obtain ⟨v, hv, rfl⟩ := List.mem_map.mp hc
      rw [Int64.toInt_ofNat_of_lt (hsmall v hv)]
      exact Int.natCast_nonneg v
    · rw [totalCount_ofNat hsmall, totalCount_ofNat h.small, htotal]

/-- Without a shift nothing is merged. -/
theorem mergedRuns_zero (hin : InRange spans)
    (hlength : (spanIndices 0 spans).length = values.length) :
    mergedRuns (· + ·) 0 spans values = (spanIndices 0 spans).zip values := by
  rw [mergedRuns, coarsePairs, show coarseIndex 0 = id from funext coarseIndex_zero, List.map_id]
  refine MergeRuns.mergeRuns_of_pairwise ?_
  rw [List.map_fst_zip (le_of_eq hlength)]
  exact hin.ascending

/-- **A side whose spans cover its counts is safe exactly when its merged counts are small.** -/
theorem ExactCounts.safeSide_iff (h : ExactCounts values spans deltas)
    (hlength : (spanIndices 0 spans).length = values.length) :
    SafeSide shift spans deltas ↔
      ∀ v ∈ (mergedRuns (· + ·) (shiftAmount shift) spans values).map Prod.snd, v < 2 ^ 63 := by
  constructor
  · intro hsafe v hv
    rcases Nat.eq_zero_or_pos (shiftAmount shift) with hzero | hpos
    · rw [hzero, mergedRuns_zero h.inRange hlength, List.map_snd_zip (le_of_eq hlength.symm)] at hv
      exact h.small v hv
    · obtain ⟨st, hst⟩ : ∃ st, mergeIndices checkedAdd shift (spanIndices 0 spans)
          ⟨[], [], (absoluteCounts 0 deltas).map some, 0, none⟩ = .ok st := by
        refine mergeIndices_ok (h.inRange.ascending.imp le_of_lt) (fun i hi => ?_) ?_ (by simp)
        · exact coarseIndex_bounds hpos (h.inRange.bounds i hi).1 (h.inRange.bounds i hi).2
        · rw [h.absolute, List.length_map, List.length_map, hlength]
      have hnone := hsafe.merging _ (List.prefix_refl _) st hst
      rw [h.absolute, ← map_fitCount h.small] at hst
      rw [mergeIndices_exact fitCount_add hst] at hnone
      by_contra hlarge
      exact hnone (List.mem_map.mpr ⟨v, hv, fitCount_eq_none_iff.mpr (not_lt.mp hlarge)⟩)
  · intro hsmall
    refine h.safeSide (fun is his v hv => ?_) ?_
    · obtain ⟨js, hjs⟩ := his
      obtain ⟨v', hv', hle⟩ := MergeRuns.exists_le_mergeRuns_append
        (fun a b : ℕ => Nat.le_add_right a b)
        (coarsePairs (shiftAmount shift) js (values.drop is.length)) hv
      rw [← coarsePairs_append, hjs] at hv'
      exact lt_of_le_of_lt hle (hsmall v' hv')
    · rw [mergedRuns, MergeRuns.sum_mergeRuns, coarsePairs_counts (le_of_eq hlength.symm)]

/-- **A side whose spans describe nothing is safe exactly when it counts nothing.** -/
theorem ExactCounts.safeSide_empty_iff (h : ExactCounts values spans deltas)
    (hempty : spanIndices 0 spans = []) : SafeSide shift spans deltas ↔ ∀ v ∈ values, v = 0 := by
  rw [← List.sum_eq_zero_iff]
  have hnothing : mergedRuns (· + ·) (shiftAmount shift) spans values = [] := by
    rw [mergedRuns, hempty]
    rfl
  constructor
  · intro hsafe
    have htotal := (hsafe.returned _ (reduceSide_of_empty hempty)).2
    rw [h.absolute, totalCount_ofNat h.small] at htotal
    exact Int.natCast_eq_zero.mp htotal.symm
  · intro hsum
    refine h.safeSide (fun is his v hv => ?_) ?_
    · rw [hempty, List.prefix_nil] at his
      rw [his] at hv
      cases hv
    · rw [hnothing, hsum]
      rfl

end

/-! ## The exposed counts -/

/-- The exact sum of the exposed counts of one side that land in bucket `j`, `n` schemas coarser. -/
def coarseSum (exposed : Histogram) (side : Side) (n : Nat) (j : Int) : Int :=
  (MergeRuns.valuesOf
    (coarsePairs n (exposed.indices side) (exactCounts 0 (exposed.deltasOf side))) j).sum

/-- The exposed counts. -/
def exposedValues (exposed : Histogram) (side : Side) : List ℕ :=
  (exactCounts 0 (exposed.deltasOf side)).map Int.toNat

/-- The buckets of one side, `n` schemas coarser, with their exact counts. -/
def exposedRuns (exposed : Histogram) (side : Side) (n : Nat) : List (Int × ℕ) :=
  mergedRuns (· + ·) n (exposed.spansOf side) (exposedValues exposed side)

theorem validateDeltas_exact {side : Side} {count : Int64} {deltas : List Int64}
    (h : validateDeltas side count deltas = .ok ()) :
    ∀ c ∈ exactCounts count.toInt deltas, 0 ≤ c ∧ c < 2 ^ 63 := by
  induction deltas generalizing count with
  | nil =>
      intro c hc
      cases hc
  | cons delta rest ih =>
      rw [validateDeltas] at h
      split at h
      · cases h
      · split at h
        · cases h
        · have hsum : (count + delta).toInt = count.toInt + delta.toInt := by
            rw [Int64.toInt_add, Int.bmod_eq_of_le (by omega) (by omega)]
          have hrest := ih h
          intro c hc
          rw [exactCounts, List.mem_cons, ← hsum] at hc
          rcases hc with rfl | hc
          · omega
          · exact hrest c hc

/-- What a reduction leaves on a side with integer counts. -/
theorem ExactCounts.of_reduceResolution {histogram histogram' : Histogram} {target : Int32}
    {side : Side} {values : List ℕ}
    (h : ExactCounts values (histogram.spansOf side) (histogram.deltasOf side))
    (hinteger : histogram.countsOf side = [])
    (hok : reduceResolution histogram target = .ok histogram') :
    ∃ out, mergeBuckets (· + ·) (histogram.spansOf side) (values.map Int64.ofNat)
        (histogram.schema - target) = .ok out ∧
      histogram'.spansOf side = out.1 ∧ histogram'.deltasOf side = deltasOf 0 out.2 ∧
      histogram'.countsOf side = [] ∧
      out.2 = ((mergedRuns (· + ·) (shiftAmount (histogram.schema - target))
        (histogram.spansOf side) values).map Prod.snd).map Int64.ofNat := by
  have hside := (reduceResolution_iff.mp hok).1 side
  rw [hinteger] at hside
  obtain ⟨out, hout, heq, hcounts⟩ := h.of_reduceSide hside
  obtain ⟨hspans, hrest⟩ := Prod.mk.inj heq
  obtain ⟨hdeltas, hcounts'⟩ := Prod.mk.inj hrest
  exact ⟨out, hout, hspans, hdeltas, hcounts', hcounts⟩

section

variable {exposed : Histogram} {side : Side}

/-- What the checks say about the exposed counts of an integer histogram. -/
structure ExposedExact (exposed : Histogram) (side : Side) : Prop where
  valid : SideValid exposed side
  integer : exposed.countsOf side = []
  bounds : ∀ c ∈ exactCounts 0 (exposed.deltasOf side), 0 ≤ c ∧ c < 2 ^ 63

theorem ExposedExact.values_eq (h : ExposedExact exposed side) :
    exactCounts 0 (exposed.deltasOf side) = (exposedValues exposed side).map Int.ofNat := by
  rw [exposedValues, List.map_map]
  refine (List.map_id _).symm.trans (List.map_congr_left fun c hc => ?_)
  exact (Int.toNat_of_nonneg (h.bounds c hc).1).symm

theorem ExposedExact.length (h : ExposedExact exposed side) :
    (spanIndices 0 (exposed.spansOf side)).length = (exposedValues exposed side).length := by
  rw [exposedValues, List.length_map, length_exactCounts, h.valid.length_eq, h.integer,
    List.length_nil, Nat.add_zero]

theorem ExposedExact.exact (h : ExposedExact exposed side) :
    ExactCounts (exposedValues exposed side) (exposed.spansOf side) (exposed.deltasOf side) where
  checked := ⟨_, _, h.valid.spans⟩
  counts := h.values_eq
  small := by
    intro v hv
    obtain ⟨c, hc, rfl⟩ := List.mem_map.mp hv
    have hbound := h.bounds c hc
    omega

theorem ExposedExact.runs_zero (h : ExposedExact exposed side) :
    exposedRuns exposed side 0 = (exposed.indices side).zip (exposedValues exposed side) :=
  mergedRuns_zero h.valid.inRange h.length

/-- The sums are those of the coarser buckets. -/
theorem ExposedExact.coarseSum_lt_iff (h : ExposedExact exposed side) {n : Nat} :
    (∀ j, coarseSum exposed side n j < 2 ^ 63) ↔
      ∀ v ∈ (exposedRuns exposed side n).map Prod.snd, v < 2 ^ 63 := by
  have hsum : ∀ j, coarseSum exposed side n j = ((MergeRuns.valuesOf
      (coarsePairs n (exposed.indices side) (exposedValues exposed side)) j).sum : ℕ) := by
    intro j
    rw [coarseSum, h.values_eq, coarsePairs_map_counts, MergeRuns.valuesOf_map_values]
    exact (Nat.cast_list_sum _).symm
  have hascending : ((coarsePairs n (exposed.indices side)
      (exposedValues exposed side)).map Prod.fst).Pairwise (· ≤ ·) :=
    coarsePairs_ascending h.valid.inRange (le_of_eq h.length)
  constructor
  · intro hj v hv
    obtain ⟨⟨j, v⟩, hmem, rfl⟩ := List.mem_map.mp hv
    have htotal := MergeRuns.sum_of_total (MergeRuns.total_of_mem_mergeRuns hascending hmem)
    have hlt := hj j
    rw [hsum, htotal] at hlt
    show v < 2 ^ 63
    omega
  · intro hv j
    rw [hsum]
    by_cases hkey : j ∈ (exposedRuns exposed side n).map Prod.fst
    · obtain ⟨⟨j, v⟩, hmem, rfl⟩ := List.mem_map.mp hkey
      have htotal := MergeRuns.sum_of_total (MergeRuns.total_of_mem_mergeRuns hascending hmem)
      have hlt := hv v (List.mem_map.mpr ⟨_, hmem, rfl⟩)
      rw [htotal]
      omega
    · have hkey' : j ∉ (coarsePairs n (exposed.indices side)
          (exposedValues exposed side)).map Prod.fst := fun hj =>
        hkey (MergeRuns.mem_keys_mergeRuns.mpr hj)
      rw [MergeRuns.valuesOf_eq_nil hkey']
      decide

/-! ## From one reduction to the next -/

variable {histogram histogram' : Histogram} {target : Int32} {n : Nat}

/-- One side of `histogram` has the exposed buckets, `n` schemas coarser, with their exact counts. -/
structure TracksCounts (exposed : Histogram) (n : Nat) (histogram : Histogram) (side : Side) : Prop where
  integer : histogram.countsOf side = []
  indices : histogram.indices side = (exposedRuns exposed side n).map Prod.fst
  exact : ExactCounts ((exposedRuns exposed side n).map Prod.snd) (histogram.spansOf side)
    (histogram.deltasOf side)

/-- One side describes nothing and counts nothing, as does the exposed one. -/
structure Vanished (exposed : Histogram) (histogram : Histogram) (side : Side) : Prop where
  integer : histogram.countsOf side = []
  indices : histogram.indices side = []
  exact : ∃ values, ExactCounts values (histogram.spansOf side) (histogram.deltasOf side) ∧
    ∀ v ∈ values, v = 0
  nothing : ∀ v ∈ exposedValues exposed side, v = 0

theorem ExposedExact.tracks (h : ExposedExact exposed side) : TracksCounts exposed 0 exposed side := by
  have hlength : (exposed.indices side).length = (exposedValues exposed side).length := h.length
  refine ⟨h.integer, ?_, ?_⟩
  · rw [h.runs_zero, List.map_fst_zip (le_of_eq hlength)]
  · rw [h.runs_zero, List.map_snd_zip (le_of_eq hlength.symm)]
    exact h.exact

theorem TracksCounts.length (h : TracksCounts exposed n histogram side) :
    (spanIndices 0 (histogram.spansOf side)).length =
      ((exposedRuns exposed side n).map Prod.snd).length := by
  rw [show spanIndices 0 (histogram.spansOf side) = _ from h.indices, List.length_map,
    List.length_map]

/-- The runs of the next reduction are those of the exposed buckets. -/
theorem TracksCounts.runs (h : TracksCounts exposed n histogram side) (d : Nat) :
    mergedRuns (· + ·) d (histogram.spansOf side) ((exposedRuns exposed side n).map Prod.snd) =
      exposedRuns exposed side (n + d) := by
  have hpairs : coarsePairs d ((exposedRuns exposed side n).map Prod.fst)
      ((exposedRuns exposed side n).map Prod.snd) =
        (exposedRuns exposed side n).map fun p => (coarseIndex d p.1, p.2) := by
    rw [coarsePairs, ← List.unzip_fst, ← List.unzip_snd, List.zip_map_left, List.zip_unzip]
    rfl
  rw [mergedRuns, show spanIndices 0 (histogram.spansOf side) = _ from h.indices, hpairs, exposedRuns,
    mergedRuns, MergeRuns.mergeRuns_map Nat.add_assoc, coarsePairs_map, exposedRuns, mergedRuns]

/-- **A reduction of a tracked side is safe exactly when the exposed counts fit.** -/
theorem TracksCounts.safeSide_iff (h : TracksCounts exposed n histogram side)
    (hexposed : ExposedExact exposed side) {shift : Int32} :
    SafeSide shift (histogram.spansOf side) (histogram.deltasOf side) ↔
      ∀ j, coarseSum exposed side (n + shiftAmount shift) j < 2 ^ 63 := by
  rw [h.exact.safeSide_iff h.length, h.runs, hexposed.coarseSum_lt_iff]

theorem Vanished.safeSide (h : Vanished exposed histogram side) {shift : Int32} :
    SafeSide shift (histogram.spansOf side) (histogram.deltasOf side) := by
  obtain ⟨values, hexact, hzero⟩ := h.exact
  exact (hexact.safeSide_empty_iff h.indices).mpr hzero

theorem Vanished.coarseSum_lt (h : Vanished exposed histogram side)
    (hexposed : ExposedExact exposed side) (j : Int) : coarseSum exposed side n j < 2 ^ 63 := by
  refine hexposed.coarseSum_lt_iff.mpr (fun v hv => ?_) j
  have hsum : ((exposedRuns exposed side n).map Prod.snd).sum = 0 := by
    rw [exposedRuns, mergedRuns, MergeRuns.sum_mergeRuns,
      coarsePairs_counts (le_of_eq hexposed.length.symm)]
    exact List.sum_eq_zero_iff.mpr h.nothing
  rw [List.sum_eq_zero_iff.mp hsum v hv]
  decide

/-- After a safe reduction that overflows no span the side is tracked again. -/
theorem TracksCounts.reduce (h : TracksCounts exposed n histogram side)
    (hok : reduceResolution histogram target = .ok histogram')
    (hsmall : (coarsened (shiftAmount (histogram.schema - target))
      (histogram.indices side)).length < 2 ^ 32)
    (hfits : ∀ v ∈ (exposedRuns exposed side
      (n + shiftAmount (histogram.schema - target))).map Prod.snd, v < 2 ^ 63) :
    TracksCounts exposed (n + shiftAmount (histogram.schema - target)) histogram' side := by
  obtain ⟨out, hout, hspans, hdeltas, hinteger, hcounts⟩ :=
    h.exact.of_reduceResolution h.integer hok
  have hle := h.length
  rw [← List.length_map (f := Int64.ofNat)] at hle
  obtain ⟨hvalid, hindices⟩ := mergeBuckets_valid .positive hout h.exact.inRange hle hsmall
  have hkeys : ((exposedRuns exposed side
      (n + shiftAmount (histogram.schema - target))).map Prod.fst) =
        coarsened (shiftAmount (histogram.schema - target)) (histogram.indices side) := by
    rw [← h.runs]
    exact mergedRuns_keys h.exact.inRange (le_of_eq h.length)
  rw [h.runs] at hcounts
  refine ⟨hinteger, ?_, ⟨.positive, out.2.length, ?_⟩, ?_, hfits⟩
  · rw [Histogram.indices, hspans, hkeys]
    exact hindices
  · rw [hspans]
    exact hvalid
  · rw [hdeltas, hcounts]
    exact exactCounts_deltasOf (by decide) hfits

theorem Vanished.reduce (h : Vanished exposed histogram side)
    (hok : reduceResolution histogram target = .ok histogram') :
    Vanished exposed histogram' side := by
  have hside := (reduceResolution_iff.mp hok).1 side
  rw [h.integer, reduceSide_of_empty h.indices] at hside
  obtain ⟨hspans, hrest⟩ := Prod.mk.inj (Except.ok.inj hside)
  obtain ⟨hdeltas, hinteger⟩ := Prod.mk.inj hrest
  refine ⟨hinteger.symm, ?_, ⟨[], ⟨⟨.positive, 0, ?_⟩, ?_, by simp⟩, by simp⟩, h.nothing⟩
  · rw [Histogram.indices, ← hspans]
    rfl
  · rw [← hspans]
    rfl
  · rw [← hdeltas]
    rfl

/-- One side in a run whose reductions so far were safe. -/
def SideState (exposed : Histogram) (n : Nat) (histogram : Histogram) (side : Side) : Prop :=
  TracksCounts exposed n histogram side ∨ Vanished exposed histogram side

theorem SideState.safeSide_iff (h : SideState exposed n histogram side)
    (hexposed : ExposedExact exposed side) {shift : Int32} :
    SafeSide shift (histogram.spansOf side) (histogram.deltasOf side) ↔
      ∀ j, coarseSum exposed side (n + shiftAmount shift) j < 2 ^ 63 := by
  rcases h with htracks | hvanished
  · exact htracks.safeSide_iff hexposed
  · exact iff_of_true hvanished.safeSide (hvanished.coarseSum_lt hexposed)

theorem SideState.reduce (h : SideState exposed n histogram side)
    (hexposed : ExposedExact exposed side)
    (hok : reduceResolution histogram target = .ok histogram')
    (hsmall : (coarsened (shiftAmount (histogram.schema - target))
      (histogram.indices side)).length < 2 ^ 32)
    (hfits : ∀ j, coarseSum exposed side (n + shiftAmount (histogram.schema - target)) j < 2 ^ 63) :
    SideState exposed (n + shiftAmount (histogram.schema - target)) histogram' side := by
  rcases h with htracks | hvanished
  · exact .inl (htracks.reduce hok hsmall (hexposed.coarseSum_lt_iff.mp hfits))
  · exact .inr (hvanished.reduce hok)

theorem SideState.inRange (h : SideState exposed n histogram side) :
    InRange (histogram.spansOf side) := by
  rcases h with htracks | hvanished
  · exact htracks.exact.inRange
  · obtain ⟨values, hexact, -⟩ := hvanished.exact
    exact hexact.inRange

/-! ## The run -/

/-- How far the reductions from the exposed schema down to `target` shift. -/
def totalShift (schema target : Int32) : Nat :=
  firstShift schema + (min schema.toInt 8 - target.toInt).toNat

/-- **The reductions of the limit loop are safe exactly when the exposed counts fit.** -/
theorem limitReductions_safe_iff {limit fuel : Nat} (hexposed : ∀ side, ExposedExact exposed side)
    (hstate : ∀ side, SideState exposed (totalShift exposed.schema histogram.schema) histogram side)
    (hfuel : schemaMin.toInt + fuel = histogram.schema.toInt)
    (hschema : histogram.schema.toInt ≤ min exposed.schema.toInt 8) :
    (∀ r ∈ limitReductions limit fuel histogram, SafeReduction r.1 r.2) ↔
      ∀ r ∈ limitReductions limit fuel histogram, ∀ side j,
        coarseSum exposed side (totalShift exposed.schema r.2) j < 2 ^ 63 := by
  induction fuel generalizing histogram with
  | zero =>
      rw [limitReductions]
      simp
  | succ fuel ih =>
      rw [limitReductions]
      by_cases hfits : bucketLen histogram .negative + bucketLen histogram .positive ≤ limit
      · rw [if_pos hfits]
        simp
      · rw [if_neg hfits]
        have hcoarser : (histogram.schema - 1).toInt = _ := toInt_sub_one (by omega)
        have hshift : shiftAmount (histogram.schema - (histogram.schema - 1)) = 1 :=
          shiftAmount_one (by omega)
        have htotal : totalShift exposed.schema histogram.schema + 1 =
            totalShift exposed.schema (histogram.schema - 1) := by
          rw [totalShift, totalShift, hcoarser]
          omega
        have hfirst : SafeReduction histogram (histogram.schema - 1) ↔ ∀ side j,
            coarseSum exposed side (totalShift exposed.schema (histogram.schema - 1)) j < 2 ^ 63 := by
          refine forall_congr' fun side => ?_
          rw [(hstate side).safeSide_iff (hexposed side), hshift, htotal]
        rw [List.forall_mem_cons, List.forall_mem_cons, hfirst]
        refine and_congr_right fun hsums => ?_
        cases hreduce : reduceResolution histogram (histogram.schema - 1) with
        | error message => simp
        | ok histogram' =>
            have hschema' : histogram'.schema = histogram.schema - 1 := by
              rw [(reduceResolution_iff.mp hreduce).2]
            refine ih (fun side => ?_) (by rw [hschema', hcoarser]; omega)
              (by rw [hschema', hcoarser]; omega)
            have hnext := (hstate side).reduce (hexposed side) hreduce
            rw [hshift, htotal] at hnext
            rw [hschema']
            exact hnext ((hstate side).inRange.length_coarsened_lt (Nat.le_refl 1)) (hsums side)

theorem limitedReductions_safe_iff {bucketLimit : UInt32}
    (hexposed : ∀ side, ExposedExact exposed side)
    (hstate : ∀ side, SideState exposed (totalShift exposed.schema histogram.schema) histogram side)
    (hmin : schemaMin.toInt ≤ histogram.schema.toInt)
    (hschema : histogram.schema.toInt ≤ min exposed.schema.toInt 8) :
    (∀ r ∈ limitedReductions histogram bucketLimit, SafeReduction r.1 r.2) ↔
      ∀ r ∈ limitedReductions histogram bucketLimit, ∀ side j,
        coarseSum exposed side (totalShift exposed.schema r.2) j < 2 ^ 63 := by
  rw [limitedReductions]
  split
  · exact limitReductions_safe_iff hexposed hstate (by omega) hschema
  · simp

/-! ## The first reduction -/

/-- A side with all `2 ^ 32` buckets, not all of them empty, whose first reduction does not shift. -/
def Overfull (exposed : Histogram) (side : Side) : Prop :=
  8 < exposed.schema.toInt ∧ firstShift exposed.schema = 0 ∧
    2 ^ 32 ≤ (exposed.indices side).length ∧
    ∃ c ∈ exactCounts 0 (exposed.deltasOf side), c ≠ 0

theorem ExposedExact.exists_ne_zero_iff (h : ExposedExact exposed side) :
    (∃ c ∈ exactCounts 0 (exposed.deltasOf side), c ≠ 0) ↔
      ∃ v ∈ exposedValues exposed side, v ≠ 0 := by
  rw [h.values_eq]
  simp

theorem firstShift_amount (h : 8 < exposed.schema.toInt) :
    shiftAmount (exposed.schema - schemaMax) = firstShift exposed.schema := by
  have hmax : schemaMax < exposed.schema := by
    rw [Int32.lt_iff_toInt_lt]
    exact h
  rw [firstShift, if_pos hmax]

/-- What a full side that is not shifted leaves behind. -/
theorem ExposedExact.reduce_full (h : ExposedExact exposed side)
    (hok : reduceResolution exposed schemaMax = .ok histogram') (hlarge : 8 < exposed.schema.toInt)
    (hshift : firstShift exposed.schema = 0) (hfull : 2 ^ 32 ≤ (exposed.indices side).length) :
    histogram'.countsOf side = [] ∧ histogram'.indices side = [] ∧
      ExactCounts (exposedValues exposed side) (histogram'.spansOf side)
        (histogram'.deltasOf side) := by
  obtain ⟨out, hout, hspans, hdeltas, hinteger, hcounts⟩ :=
    h.exact.of_reduceResolution h.integer hok
  have hzero := (firstShift_amount hlarge).trans hshift
  obtain ⟨span, hspan, hoffset, hlength⟩ := mergeBuckets_full h.valid.inRange hfull hzero hout
  rw [hspan] at hspans
  refine ⟨hinteger, ?_, ⟨.positive, 0, ?_⟩, ?_, h.exact.small⟩
  · rw [Histogram.indices, hspans]
    exact spanIndices_length_zero hlength
  · rw [hspans, validateSpans, if_neg (by simp)]
    simp [hoffset, hlength, fitsInt32, validateSpans]
  · rw [hdeltas, hcounts, hzero, mergedRuns_zero h.valid.inRange h.length,
      List.map_snd_zip (le_of_eq h.length.symm)]
    exact exactCounts_deltasOf (by decide) h.exact.small

/-- **After a safe first reduction a side is tracked, unless it was overfull.** -/
theorem ExposedExact.first_state (h : ExposedExact exposed side)
    (hok : reduceResolution exposed schemaMax = .ok histogram') (hlarge : 8 < exposed.schema.toInt)
    (hfits : ∀ j, coarseSum exposed side (firstShift exposed.schema) j < 2 ^ 63)
    (hnot : ¬ Overfull exposed side) :
    SideState exposed (firstShift exposed.schema) histogram' side := by
  have hamount := firstShift_amount hlarge
  by_cases hfull : firstShift exposed.schema = 0 ∧ 2 ^ 32 ≤ (exposed.indices side).length
  · obtain ⟨hinteger, hindices, hexact⟩ := h.reduce_full hok hlarge hfull.1 hfull.2
    have hzero : ∀ v ∈ exposedValues exposed side, v = 0 := by
      intro v hv
      by_contra hne
      exact hnot ⟨hlarge, hfull.1, hfull.2, h.exists_ne_zero_iff.mpr ⟨v, hv, hne⟩⟩
    exact .inr ⟨hinteger, hindices, ⟨_, hexact, hzero⟩, hzero⟩
  · have hsmall : (coarsened (shiftAmount (exposed.schema - schemaMax))
        (exposed.indices side)).length < 2 ^ 32 := by
      rw [hamount]
      rcases Nat.eq_zero_or_pos (firstShift exposed.schema) with hzero | hpos
      · rw [hzero, coarsened_zero h.valid.ascending]
        by_contra hnotSmall
        exact hfull ⟨hzero, not_lt.mp hnotSmall⟩
      · exact h.valid.inRange.length_coarsened_lt hpos
    have hnext := SideState.reduce (.inl h.tracks) h hok hsmall
    rw [hamount, Nat.zero_add] at hnext
    exact hnext hfits

/-- An overfull side is not reduced safely once more. -/
theorem ExposedExact.not_safe_of_overfull (h : ExposedExact exposed side)
    (hok : reduceResolution exposed schemaMax = .ok histogram') (hover : Overfull exposed side) :
    ¬ SafeReduction histogram' target := by
  obtain ⟨hlarge, hshift, hfull, hcount⟩ := hover
  obtain ⟨-, hindices, hexact⟩ := h.reduce_full hok hlarge hshift hfull
  obtain ⟨v, hv, hne⟩ := h.exists_ne_zero_iff.mp hcount
  intro hsafe
  exact hne ((hexact.safeSide_empty_iff hindices).mp (hsafe side) v hv)

/-- The exposed counts that land in one bucket of a schema that is reached fit an `i64`, and no
overfull side is reduced twice. -/
structure CountsFit (bucketLimit : UInt32) (exposed : Histogram) : Prop where
  sums : ∀ r ∈ nativeReductions exposed bucketLimit, ∀ side j,
    coarseSum exposed side (totalShift exposed.schema r.2) j < 2 ^ 63
  unwrapped : 2 ≤ (nativeReductions exposed bucketLimit).length → ∀ side, ¬ Overfull exposed side

/-- An overfull side is over every limit. -/
theorem ExposedExact.overfull_reduced (h : ExposedExact exposed side)
    (hok : reduceResolution exposed schemaMax = .ok histogram') (hover : Overfull exposed side)
    {bucketLimit : UInt32} (hlimit : 0 < bucketLimit) :
    (histogram', histogram'.schema - 1) ∈ limitedReductions histogram' bucketLimit := by
  obtain ⟨hlarge, hshift, hfull, -⟩ := hover
  obtain ⟨-, -, hexact⟩ := h.reduce_full hok hlarge hshift hfull
  have hschema : histogram'.schema = schemaMax := by
    rw [(reduceResolution_iff.mp hok).2]
  have hlength : (histogram'.deltasOf side).length = (exposed.indices side).length := by
    rw [← length_exactCounts 0, hexact.counts, List.length_map]
    exact h.length.symm
  have hover : ¬ bucketLen histogram' .negative + bucketLen histogram' .positive ≤
      bucketLimit.toNat := by
    have hlt := bucketLimit.toNat_lt
    have hside := bucketLen_eq histogram' side
    cases side <;> omega
  rw [limitedReductions, if_pos hlimit, hschema,
    show (schemaMax.toInt - schemaMin.toInt).toNat = 11 + 1 from rfl, limitReductions, if_neg hover,
    hschema]
  exact List.mem_cons_self

/-- The reductions of a histogram of schema 8 or less are those of the limit loop. -/
theorem nativeReductions_of_le {bucketLimit : UInt32} (hmin : schemaMin.toInt ≤ exposed.schema.toInt)
    (hmax : exposed.schema.toInt ≤ 8) :
    nativeReductions exposed bucketLimit = limitedReductions exposed bucketLimit := by
  rw [nativeReductions, if_neg, if_neg]
  · rw [Int32.lt_iff_toInt_lt, not_lt]
    exact hmax
  · rw [Int32.lt_iff_toInt_lt, not_lt]
    exact hmin

theorem nativeReductions_of_lt {bucketLimit : UInt32} (hlarge : 8 < exposed.schema.toInt) :
    nativeReductions exposed bucketLimit = (exposed, schemaMax) ::
      match reduceResolution exposed schemaMax with
      | .ok histogram => limitedReductions histogram bucketLimit
      | .error _ => [] := by
  have hmin : schemaMin.toInt = -4 := rfl
  rw [nativeReductions, if_neg, if_pos]
  · rw [Int32.lt_iff_toInt_lt]
    exact hlarge
  · rw [Int32.lt_iff_toInt_lt]
    omega

theorem totalShift_first (hlarge : 8 < exposed.schema.toInt) :
    totalShift exposed.schema schemaMax = firstShift exposed.schema := by
  have hmax : schemaMax.toInt = 8 := rfl
  rw [totalShift]
  omega

theorem countsFit_iff {bucketLimit : UInt32}
    (h : (nativeReductions exposed bucketLimit).length < 2 ∨ ∀ side, ¬ Overfull exposed side) :
    CountsFit bucketLimit exposed ↔ ∀ r ∈ nativeReductions exposed bucketLimit, ∀ side j,
      coarseSum exposed side (totalShift exposed.schema r.2) j < 2 ^ 63 := by
  refine ⟨CountsFit.sums, fun hsums => ⟨hsums, fun htwo => ?_⟩⟩
  rcases h with hone | hnot
  · omega
  · exact hnot

/-- The first reduction, to schema 8. -/
theorem safeReduction_first_iff (h : ∀ side, ExposedExact exposed side)
    (hlarge : 8 < exposed.schema.toInt) :
    SafeReduction exposed schemaMax ↔ ∀ side j,
      coarseSum exposed side (totalShift exposed.schema schemaMax) j < 2 ^ 63 := by
  refine forall_congr' fun side => ?_
  rw [(h side).tracks.safeSide_iff (h side), firstShift_amount hlarge, Nat.zero_add,
    totalShift_first hlarge]

/-- A histogram of schema 8 or less. -/
theorem safeReductions_of_le {bucketLimit : UInt32} (h : ∀ side, ExposedExact exposed side)
    (hlow : exposed.schema.toInt ≤ 8) :
    (∀ r ∈ nativeReductions exposed bucketLimit, SafeReduction r.1 r.2) ↔
      CountsFit bucketLimit exposed := by
  rw [countsFit_iff (.inr fun side hover => by have := hover.1; omega)]
  rcases Int.lt_or_le exposed.schema.toInt schemaMin.toInt with hbelow | hmin
  · have hnone : nativeReductions exposed bucketLimit = [] :=
      if_pos (Int32.lt_iff_toInt_lt.mpr hbelow)
    rw [hnone]
    simp
  · rw [nativeReductions_of_le hmin hlow]
    refine limitedReductions_safe_iff h (fun side => .inl ?_) hmin (by omega)
    rw [totalShift, firstShift_of_le hlow,
      show (min exposed.schema.toInt 8 - exposed.schema.toInt).toNat = 0 by omega]
    exact (h side).tracks

/-- The first reduction alone. -/
theorem safeReductions_of_single {bucketLimit : UInt32} (h : ∀ side, ExposedExact exposed side)
    (hlarge : 8 < exposed.schema.toInt)
    (hone : nativeReductions exposed bucketLimit = [(exposed, schemaMax)]) :
    (∀ r ∈ nativeReductions exposed bucketLimit, SafeReduction r.1 r.2) ↔
      CountsFit bucketLimit exposed := by
  rw [countsFit_iff (.inl (by simp [hone])), hone, List.forall_mem_singleton,
    List.forall_mem_singleton, safeReduction_first_iff h hlarge]

/-- An overfull side fails at its second reduction. -/
theorem safeReductions_of_overfull {bucketLimit : UInt32} (h : ∀ side, ExposedExact exposed side)
    (hreduce : reduceResolution exposed schemaMax = .ok histogram)
    (hlist : nativeReductions exposed bucketLimit =
      (exposed, schemaMax) :: limitedReductions histogram bucketLimit)
    (hover : Overfull exposed side) :
    (∀ r ∈ nativeReductions exposed bucketLimit, SafeReduction r.1 r.2) ↔
      CountsFit bucketLimit exposed := by
  by_cases hlimit : 0 < bucketLimit
  · have hnext := (h side).overfull_reduced hreduce hover hlimit
    refine iff_of_false (fun hsafe => ?_) (fun hfit => ?_)
    · refine (h side).not_safe_of_overfull hreduce hover
        (hsafe (histogram, histogram.schema - 1) ?_)
      rw [hlist]
      exact List.mem_cons_of_mem _ hnext
    · refine hfit.unwrapped ?_ side hover
      have hpos := List.length_pos_of_mem hnext
      rw [hlist, List.length_cons]
      omega
  · rw [limitedReductions, if_neg hlimit] at hlist
    exact safeReductions_of_single h hover.1 hlist

theorem safeReductions_of_gt {bucketLimit : UInt32} (h : ∀ side, ExposedExact exposed side)
    (hlarge : 8 < exposed.schema.toInt) :
    (∀ r ∈ nativeReductions exposed bucketLimit, SafeReduction r.1 r.2) ↔
      CountsFit bucketLimit exposed := by
  have hmaxInt : schemaMax.toInt = 8 := rfl
  have hlist : nativeReductions exposed bucketLimit = _ := nativeReductions_of_lt hlarge
  cases hreduce : reduceResolution exposed schemaMax with
  | error message =>
      rw [hreduce] at hlist
      exact safeReductions_of_single h hlarge hlist
  | ok histogram =>
      rw [hreduce] at hlist
      have hlist : nativeReductions exposed bucketLimit =
          (exposed, schemaMax) :: limitedReductions histogram bucketLimit := hlist
      by_cases hover : ∃ side, Overfull exposed side
      · obtain ⟨side, hover⟩ := hover
        exact safeReductions_of_overfull h hreduce hlist hover
      · push Not at hover
        have hschema : histogram.schema = schemaMax := by
          rw [(reduceResolution_iff.mp hreduce).2]
        rw [countsFit_iff (.inr hover), hlist, List.forall_mem_cons, List.forall_mem_cons,
          safeReduction_first_iff h hlarge]
        refine and_congr_right fun hsums => ?_
        refine limitedReductions_safe_iff h (fun side => ?_) (by rw [hschema]; decide)
          (by rw [hschema]; omega)
        have hfits := hsums side
        rw [hschema, totalShift_first hlarge] at *
        exact (h side).first_state hreduce hlarge hfits (hover side)

/-- **All reductions are safe exactly when the exposed counts fit**, for a checked histogram. -/
theorem safeReductions_iff {bucketLimit : UInt32} (h : ∀ side, ExposedExact exposed side) :
    (∀ r ∈ nativeReductions exposed bucketLimit, SafeReduction r.1 r.2) ↔
      CountsFit bucketLimit exposed := by
  rcases Int.lt_or_le 8 exposed.schema.toInt with hlarge | hlow
  · exact safeReductions_of_gt h hlarge
  · exact safeReductions_of_le h hlow

end

/-! ## Exposed integer histograms -/

/-- An integer histogram has no positive float count. -/
def isInteger (exposed : Dto.Histogram) : Bool :=
  !(isPositive (orZero exposed.sampleCountFloat) || isPositive (orZero exposed.zeroCountFloat))

theorem SidesValidated.exact {exposed : Dto.Histogram} {gauge : Bool}
    (h : SidesValidated (exposedHistogram exposed gauge)) (hinteger : isInteger exposed = true)
    (side : Side) : ExposedExact (exposedHistogram exposed gauge) side where
  valid := h.valid side
  integer := by
    rw [isInteger, Bool.not_eq_true'] at hinteger
    cases side <;> simp [exposedHistogram, Histogram.countsOf, hinteger]
  bounds := by
    obtain ⟨covered, -, hrest⟩ := bind_eq_ok.mp (h side)
    split at hrest
    · cases hrest
    · exact validateDeltas_exact hrest

/-- **All reductions of an integer histogram are safe exactly when its counts fit.** -/
theorem nativeReductions_safe_iff {exposed : Dto.Histogram} {gauge : Bool} {bucketLimit : UInt32}
    (hinteger : isInteger exposed = true)
    (hvalid : SidesValidated (exposedHistogram exposed gauge)) :
    (∀ r ∈ nativeReductions (exposedHistogram exposed gauge) bucketLimit,
      SafeReduction r.1 r.2) ↔ CountsFit bucketLimit (exposedHistogram exposed gauge) :=
  safeReductions_iff (hvalid.exact hinteger)

/-- Two neighbouring buckets, each as full as the checks allow. -/
def twoFull : Dto.Histogram :=
  { Dto.Histogram.default with
    sampleCount := some 18446744073709551614
    schema := some 0
    positiveSpan := [⟨some 1, some 2⟩]
    positiveDelta := [9223372036854775807, 0] }

/-- Merged, they count -2. -/
theorem twoFull_overflows : SidesValidated (exposedHistogram twoFull false) ∧
    (∃ returned, nativeHistogram twoFull false 1 = .ok returned ∧
      absoluteCounts 0 returned.positiveDeltas = [-2]) ∧
    ∃ r ∈ nativeReductions (exposedHistogram twoFull false) 1, ¬ SafeReduction r.1 r.2 := by
  refine ⟨by decide, ⟨_, rfl, by decide⟩, ⟨_, List.mem_singleton.mpr rfl, fun h => ?_⟩⟩
  have hnonneg := ((h .positive).returned ([⟨1, 1⟩], [-2], []) (by decide)).1
  exact absurd (hnonneg (-2) (by decide)) (by decide)

theorem nativeReductions_safe_iff_twoFull :
    (∀ r ∈ nativeReductions (exposedHistogram twoFull false) 1, SafeReduction r.1 r.2) ↔
      CountsFit 1 (exposedHistogram twoFull false) :=
  nativeReductions_safe_iff (by decide) (by decide)

end PromScrape
