import PromScrape.Proofs.MergeBuckets

set_option autoImplicit false

/-! # Native histograms under a bucket limit

Every reduction keeps a histogram whose spans pass the checks, with the buckets one schema coarser.
The limit loop therefore stops at the first schema with few enough buckets, and fails only when the
coarsest has too many. -/

namespace PromScrape

open Fallible (bind_eq_ok map_eq_ok)

/-! ## Sides that pass the checks -/

/-- The spans of one side pass the span checks, for as many buckets as it has, in one of the two
representations. -/
structure SideValid (histogram : Histogram) (side : Side) : Prop where
  spans : validateSpans side 0 (histogram.spansOf side) 0 0 = .ok (bucketLen histogram side)
  representation : histogram.countsOf side = [] ∨ histogram.deltasOf side = []

theorem bucketLen_eq (histogram : Histogram) (side : Side) : bucketLen histogram side =
    (histogram.deltasOf side).length + (histogram.countsOf side).length := by
  cases side <;> rfl

theorem SideValid.inRange {histogram : Histogram} {side : Side} (h : SideValid histogram side) :
    InRange (histogram.spansOf side) := by
  obtain ⟨-, hsorted, hbound, -⟩ := validateSpans_ok h.spans
  exact ⟨hsorted, hbound⟩

theorem SideValid.ascending {histogram : Histogram} {side : Side} (h : SideValid histogram side) :
    (histogram.indices side).Pairwise (· < ·) := h.inRange.ascending

theorem SideValid.length {histogram : Histogram} {side : Side} (h : SideValid histogram side) :
    (histogram.indices side).length = bucketLen histogram side := by
  obtain ⟨htotal, -, -, -⟩ := validateSpans_ok h.spans
  rw [Nat.zero_add] at htotal
  exact htotal.symm

/-- Canonical spans within `i32` pass the span checks. -/
theorem validateSpans_of_canonical {side : Side} {i covered : Nat} {spans : List BucketSpan}
    {next : Int} (h : Canonical spans) (hfirst : 0 < i → ∀ span ∈ spans, 0 < span.offset.toInt)
    (hbound : ∀ j ∈ spanIndices next spans, -2 ^ 31 ≤ j ∧ j < 2 ^ 31) :
    validateSpans side i spans covered next =
      .ok (covered + (spanIndices next spans).length) := by
  induction spans generalizing i covered next with
  | nil => rfl
  | cons span rest ih =>
      have hlength := h.length_pos span List.mem_cons_self
      rw [spanIndices] at hbound
      have hlo := hbound (next + span.offset.toInt)
        (List.mem_append_left _ (mem_indexRun.mpr (by omega)))
      have hhi := hbound (next + span.offset.toInt + span.length.toNat - 1)
        (List.mem_append_left _ (mem_indexRun.mpr (by omega)))
      have hforward : ¬ (0 < i ∧ span.offset < 0) := by
        rintro ⟨hi, hneg⟩
        have hpos := hfirst hi span List.mem_cons_self
        rw [Int32.lt_iff_toInt_lt, Int32.toInt_zero] at hneg
        omega
      have hfits : (!fitsInt32 (next + span.offset.toInt) ||
          !fitsInt32 (next + span.offset.toInt + (max span.length.toNat 1 : Nat) - 1)) = false := by
        simp only [fitsInt32, Bool.or_eq_false_iff, Bool.not_eq_false', Bool.and_eq_true,
          decide_eq_true_eq]
        omega
      rw [validateSpans, if_neg hforward]
      dsimp only
      rw [hfits, if_neg Bool.false_ne_true, ih h.of_cons (fun _ => h.offset_pos)
        fun j hj => hbound j (List.mem_append_right _ hj), spanIndices, List.length_append,
        length_indexRun, Nat.add_assoc]

/-! ## One reduction -/

/-- `histogram'` is `histogram`, `n` schemas coarser. -/
structure Reduced (n : Nat) (histogram histogram' : Histogram) : Prop where
  valid : ∀ side, SideValid histogram' side
  indices : ∀ side, histogram'.indices side = coarsened n (histogram.indices side)

theorem Reduced.refl {histogram : Histogram} (h : ∀ side, SideValid histogram side) :
    Reduced 0 histogram histogram where
  valid := h
  indices side := (coarsened_zero (h side).ascending).symm

theorem Reduced.trans {histogram₁ histogram₂ histogram₃ : Histogram} {a b : Nat}
    (h : ∀ side, SideValid histogram₁ side) (h₁ : Reduced a histogram₁ histogram₂)
    (h₂ : Reduced b histogram₂ histogram₃) : Reduced (a + b) histogram₁ histogram₃ where
  valid := h₂.valid
  indices side := by
    rw [h₂.indices, h₁.indices, coarsened_coarsened (h side).ascending]

/-- As many buckets as there are coarser ones. -/
theorem Reduced.bucketLen_eq {histogram histogram' : Histogram} {n : Nat}
    (h : Reduced n histogram histogram') :
    bucketLen histogram' .negative + bucketLen histogram' .positive =
      coarseCount histogram n := by
  rw [coarseCount, ← h.indices, ← h.indices, (h.valid _).length, (h.valid _).length]

theorem length_deltasOf (previous : Int64) (counts : List Int64) :
    (deltasOf previous counts).length = counts.length := by
  induction counts generalizing previous with
  | nil => rfl
  | cons count rest ih => rw [deltasOf, List.length_cons, ih, List.length_cons]

theorem length_absoluteCounts (count : Int64) (deltas : List Int64) :
    (absoluteCounts count deltas).length = deltas.length := by
  induction deltas generalizing count with
  | nil => rfl
  | cons delta rest ih => rw [absoluteCounts, List.length_cons, ih, List.length_cons]

/-- The runs of a merge are the coarser buckets. -/
theorem mergedRuns_keys {α : Type} {add : α → α → α} {n : Nat} {spans : List BucketSpan}
    {counts : List α} (hin : InRange spans)
    (hlength : (spanIndices 0 spans).length ≤ counts.length) :
    (mergedRuns add n spans counts).map Prod.fst = coarsened n (spanIndices 0 spans) := by
  refine SortedSearch.eq_of_mem_iff (mergedRuns_ascending hin hlength)
    (coarsened_ascending hin.ascending n) fun j => ?_
  rw [mem_mergedRuns_keys hlength, mem_coarsened]

theorem coarseIndex_inRange (n : Nat) {i : Int} (hlo : -2 ^ 31 ≤ i) (hhi : i < 2 ^ 31) :
    -2 ^ 31 ≤ coarseIndex n i ∧ coarseIndex n i < 2 ^ 31 := by
  cases n with
  | zero =>
      rw [coarseIndex_zero]
      exact ⟨hlo, hhi⟩
  | succ n =>
      have hbounds : -2 ^ 30 ≤ coarseIndex (n + 1) i ∧ coarseIndex (n + 1) i ≤ 2 ^ 30 :=
        coarseIndex_bounds (Nat.succ_pos n) hlo hhi
      omega

/-- A merge that does not overflow a span passes the span checks again. -/
theorem mergeBuckets_valid {α : Type} {add : α → α → α} (side : Side) {shift : Int32}
    {spans : List BucketSpan} {counts : List α} {out : List BucketSpan × List α}
    (hok : mergeBuckets add spans counts shift = .ok out) (hin : InRange spans)
    (hlength : (spanIndices 0 spans).length = counts.length)
    (hsmall : (coarsened (shiftAmount shift) (spanIndices 0 spans)).length < 2 ^ 32) :
    validateSpans side 0 out.1 0 0 = .ok out.2.length ∧
      spanIndices 0 out.1 = coarsened (shiftAmount shift) (spanIndices 0 spans) := by
  have hle := le_of_eq hlength
  have hkeys : (mergedRuns add (shiftAmount shift) spans counts).map Prod.fst = _ :=
    mergedRuns_keys hin hle
  rw [← hkeys, List.length_map] at hsmall
  obtain ⟨-, hlays⟩ := mergeBuckets_laysOut hin.ascending hsmall hok
  have hinOut := hlays.inRange hin hle fun i hi =>
    coarseIndex_inRange _ (hin.bounds i hi).1 (hin.bounds i hi).2
  refine ⟨?_, hlays.indices.trans hkeys⟩
  rw [validateSpans_of_canonical hlays.canonical (by simp) hinOut.bounds, hlays.length,
    Nat.zero_add]

/-- One side of a reduction. -/
theorem reduceSide_valid (side : Side) {shift : Int32} {spans : List BucketSpan}
    {deltas : List Int64} {counts : List F64} {r : List BucketSpan × List Int64 × List F64}
    (hok : reduceSide shift spans deltas counts = .ok r) (hin : InRange spans)
    (hlength : (spanIndices 0 spans).length = deltas.length + counts.length)
    (hone : counts = [] ∨ deltas = [])
    (hsmall : (coarsened (shiftAmount shift) (spanIndices 0 spans)).length < 2 ^ 32) :
    validateSpans side 0 r.1 0 0 = .ok (r.2.1.length + r.2.2.length) ∧
      (r.2.2 = [] ∨ r.2.1 = []) ∧
      spanIndices 0 r.1 = coarsened (shiftAmount shift) (spanIndices 0 spans) := by
  rw [reduceSide] at hok
  cases hcounts : counts.isEmpty with
  | true =>
      have hnil := List.isEmpty_iff.mp hcounts
      rw [if_pos hcounts] at hok
      obtain ⟨out, hout, rfl⟩ := map_eq_ok.mp hok
      rw [hnil, List.length_nil, Nat.add_zero, ← length_absoluteCounts 0 deltas] at hlength
      obtain ⟨hvalid, hindices⟩ := mergeBuckets_valid side hout hin hlength hsmall
      refine ⟨?_, .inl hnil, hindices⟩
      dsimp only
      rw [length_deltasOf, hnil, List.length_nil, Nat.add_zero]
      exact hvalid
  | false =>
      rw [if_neg (by rw [hcounts]; exact Bool.false_ne_true)] at hok
      obtain ⟨out, hout, rfl⟩ := map_eq_ok.mp hok
      have hdeltas : deltas = [] := by
        rcases hone with hnil | hnil
        · rw [hnil] at hcounts
          cases hcounts
        · exact hnil
      rw [hdeltas, List.length_nil, Nat.zero_add] at hlength
      obtain ⟨hvalid, hindices⟩ := mergeBuckets_valid side hout hin hlength hsmall
      refine ⟨?_, .inr hdeltas, hindices⟩
      dsimp only
      rw [hdeltas, List.length_nil, Nat.zero_add]
      exact hvalid

theorem reduceSide_ok {shift : Int32} {spans : List BucketSpan} {deltas : List Int64}
    {counts : List F64} (hin : InRange spans)
    (hlength : (spanIndices 0 spans).length = deltas.length + counts.length)
    (hone : counts = [] ∨ deltas = []) (hshift : 1 ≤ shiftAmount shift) :
    ∃ r, reduceSide shift spans deltas counts = .ok r := by
  rw [reduceSide]
  split
  · next hcounts =>
      rw [List.isEmpty_iff.mp hcounts, List.length_nil, Nat.add_zero,
        ← length_absoluteCounts 0 deltas] at hlength
      obtain ⟨out, hout, -⟩ := mergeBuckets_inRange (· + ·) shift hin (le_of_eq hlength) hshift
      exact ⟨_, map_eq_ok.mpr ⟨out, hout, rfl⟩⟩
  · next hcounts =>
      have hdeltas := hone.resolve_left fun hnil => hcounts (List.isEmpty_iff.mpr hnil)
      rw [hdeltas, List.length_nil, Nat.zero_add] at hlength
      obtain ⟨out, hout, -⟩ := mergeBuckets_inRange addF64 shift hin (le_of_eq hlength) hshift
      exact ⟨_, map_eq_ok.mpr ⟨out, hout, rfl⟩⟩

/-- A reduction is one of each side, and changes nothing else but the schema. -/
theorem reduceResolution_iff {histogram histogram' : Histogram} {target : Int32} :
    reduceResolution histogram target = .ok histogram' ↔
      (∀ side, reduceSide (histogram.schema - target) (histogram.spansOf side)
        (histogram.deltasOf side) (histogram.countsOf side) =
          .ok (histogram'.spansOf side, histogram'.deltasOf side, histogram'.countsOf side)) ∧
      histogram' = { histogram with
        negativeSpans := histogram'.negativeSpans, negativeDeltas := histogram'.negativeDeltas,
        negativeCounts := histogram'.negativeCounts, positiveSpans := histogram'.positiveSpans,
        positiveDeltas := histogram'.positiveDeltas, positiveCounts := histogram'.positiveCounts,
        schema := target } := by
  constructor
  · intro h
    obtain ⟨neg, hneg, h⟩ := bind_eq_ok.mp h
    obtain ⟨pos, hpos, h⟩ := bind_eq_ok.mp h
    cases h
    refine ⟨fun side => ?_, rfl⟩
    cases side with
    | negative => exact hneg
    | positive => exact hpos
  · rintro ⟨hsides, hrest⟩
    refine bind_eq_ok.mpr ⟨_, hsides .negative, bind_eq_ok.mpr ⟨_, hsides .positive, ?_⟩⟩
    rw [hrest]
    rfl

theorem SideValid.length_eq {histogram : Histogram} {side : Side} (h : SideValid histogram side) :
    (spanIndices 0 (histogram.spansOf side)).length =
      (histogram.deltasOf side).length + (histogram.countsOf side).length := by
  rw [← bucketLen_eq]
  exact h.length

/-- Coarser by a schema or more, no span is too long for its length. -/
theorem InRange.length_coarsened_lt {spans : List BucketSpan} (h : InRange spans) {n : Nat}
    (hn : 1 ≤ n) : (coarsened n (spanIndices 0 spans)).length < 2 ^ 32 := by
  have hbound : ∀ j ∈ coarsened n (spanIndices 0 spans), -2 ^ 30 ≤ j ∧ j ≤ 2 ^ 30 := by
    intro j hj
    obtain ⟨i, hi, rfl⟩ := mem_coarsened.mp hj
    exact coarseIndex_bounds hn (h.bounds i hi).1 (h.bounds i hi).2
  have hle := length_le_of_ascending (coarsened_ascending h.ascending n) hbound
  omega

/-- **A reduction that overflows no span keeps the checks.** -/
theorem reduceResolution_reduced {histogram histogram' : Histogram} {target : Int32}
    (hok : reduceResolution histogram target = .ok histogram')
    (h : ∀ side, SideValid histogram side)
    (hsmall : ∀ side, (coarsened (shiftAmount (histogram.schema - target))
      (histogram.indices side)).length < 2 ^ 32) :
    histogram'.schema = target ∧
      Reduced (shiftAmount (histogram.schema - target)) histogram histogram' := by
  obtain ⟨hsides, hrest⟩ := reduceResolution_iff.mp hok
  have hvalid := fun side => reduceSide_valid side (hsides side) (h side).inRange
    (h side).length_eq (h side).representation (hsmall side)
  refine ⟨by rw [hrest], fun side => ⟨?_, (hvalid side).2.1⟩, fun side => (hvalid side).2.2⟩
  rw [bucketLen_eq]
  exact (hvalid side).1

/-- **A reduction by a schema or more succeeds.** -/
theorem reduceResolution_ok {histogram : Histogram} {target : Int32}
    (h : ∀ side, SideValid histogram side)
    (hshift : 1 ≤ shiftAmount (histogram.schema - target)) :
    ∃ histogram', reduceResolution histogram target = .ok histogram' ∧
      histogram'.schema = target ∧
      Reduced (shiftAmount (histogram.schema - target)) histogram histogram' := by
  have hside : ∀ side, ∃ r, reduceSide (histogram.schema - target) (histogram.spansOf side)
      (histogram.deltasOf side) (histogram.countsOf side) = .ok r := fun side =>
    reduceSide_ok (h side).inRange (h side).length_eq (h side).representation hshift
  obtain ⟨neg, hneg⟩ := hside .negative
  obtain ⟨pos, hpos⟩ := hside .positive
  obtain ⟨histogram', hok⟩ : ∃ histogram', reduceResolution histogram target = .ok histogram' :=
    ⟨_, bind_eq_ok.mpr ⟨neg, hneg, bind_eq_ok.mpr ⟨pos, hpos, rfl⟩⟩⟩
  exact ⟨histogram', hok,
    reduceResolution_reduced hok h fun side => (h side).inRange.length_coarsened_lt hshift⟩

/-! ## The limit loop -/

/-- The error of the bucket limit. -/
def limitMessage (limit : Nat) : String :=
  "native histogram has more than native_histogram_bucket_limit of " ++ toString limit ++
    " buckets even at the coarsest schema"

/-- The `while` loop of the bucket limit: `rounds` reductions, each successful, lead from a histogram
to the loop's result. -/
inductive LimitLoop (limit : Nat) : Nat → Histogram → Except String Histogram → Prop
  | fits {histogram : Histogram} :
      bucketLen histogram .negative + bucketLen histogram .positive ≤ limit →
      LimitLoop limit 0 histogram (.ok histogram)
  | giveUp {histogram : Histogram} :
      limit < bucketLen histogram .negative + bucketLen histogram .positive →
      histogram.schema ≤ schemaMin →
      LimitLoop limit 0 histogram (.error (limitMessage limit))
  | next {rounds : Nat} {histogram histogram' : Histogram} {result : Except String Histogram} :
      limit < bucketLen histogram .negative + bucketLen histogram .positive →
      schemaMin < histogram.schema →
      reduceResolution histogram (histogram.schema - 1) = .ok histogram' →
      LimitLoop limit rounds histogram' result →
      LimitLoop limit (rounds + 1) histogram result

/-- The first schema at which the buckets fit, `n` schemas coarser. -/
def FirstFit (limit : Nat) (histogram : Histogram) (n : Nat) : Prop :=
  coarseCount histogram n ≤ limit ∧ ∀ m < n, limit < coarseCount histogram m

/-- The two ways the loop ends, after `n` rounds. -/
inductive LoopResult (limit : Nat) (histogram : Histogram) (n : Nat) :
    Except String Histogram → Prop
  | ok {histogram' : Histogram} :
      histogram'.schema.toInt + n = histogram.schema.toInt → Reduced n histogram histogram' →
      FirstFit limit histogram n → LoopResult limit histogram n (.ok histogram')
  | error :
      schemaMin.toInt + n = histogram.schema.toInt →
      (∀ m ≤ n, limit < coarseCount histogram m) →
      LoopResult limit histogram n (.error (limitMessage limit))

theorem coarseCount_zero {histogram : Histogram} (h : ∀ side, SideValid histogram side) :
    coarseCount histogram 0 = bucketLen histogram .negative + bucketLen histogram .positive :=
  (Reduced.refl h).bucketLen_eq.symm

theorem Reduced.coarseCount {histogram histogram' : Histogram} {a : Nat}
    (h : ∀ side, SideValid histogram side) (hreduced : Reduced a histogram histogram') (b : Nat) :
    coarseCount histogram' b = coarseCount histogram (a + b) := by
  rw [PromScrape.coarseCount, PromScrape.coarseCount, hreduced.indices, hreduced.indices,
    coarsened_coarsened (h .negative).ascending, coarsened_coarsened (h .positive).ascending]

/-- Coarser schemas have no more buckets. -/
theorem coarseCount_antitone {histogram : Histogram} (h : ∀ side, SideValid histogram side)
    {a b : Nat} (hle : a ≤ b) : coarseCount histogram b ≤ coarseCount histogram a := by
  obtain ⟨n, rfl⟩ := Nat.exists_eq_add_of_le hle
  rw [coarseCount, coarseCount, ← coarsened_coarsened (h .negative).ascending a n,
    ← coarsened_coarsened (h .positive).ascending a n]
  exact Nat.add_le_add (length_coarsened_le _ _) (length_coarsened_le _ _)

theorem toInt_sub_one {schema : Int32} (h : schemaMin.toInt < schema.toInt) :
    (schema - 1).toInt = schema.toInt - 1 := by
  have hhi := schema.toInt_lt
  have hmin : schemaMin.toInt = -4 := rfl
  have hone : (1 : Int32).toInt = 1 := rfl
  rw [Int32.toInt_sub, hone, Int.bmod_eq_of_le (by omega) (by omega)]

theorem shiftAmount_one {schema : Int32} (h : schemaMin.toInt < schema.toInt) :
    shiftAmount (schema - (schema - 1)) = 1 := by
  refine shiftAmount_eq ?_ (by omega)
  rw [Int32.toInt_sub, toInt_sub_one h, Int.bmod_eq_of_le (by omega) (by omega)]
  omega

/-- One round of the loop. -/
theorem reduceResolution_one {histogram : Histogram} (h : ∀ side, SideValid histogram side)
    (hschema : schemaMin.toInt < histogram.schema.toInt) :
    ∃ histogram', reduceResolution histogram (histogram.schema - 1) = .ok histogram' ∧
      histogram'.schema.toInt + 1 = histogram.schema.toInt ∧ Reduced 1 histogram histogram' := by
  have hshift := shiftAmount_one hschema
  obtain ⟨histogram', hok, hschema', hreduced⟩ := reduceResolution_ok h (by rw [hshift])
  rw [hshift] at hreduced
  refine ⟨histogram', hok, ?_, hreduced⟩
  rw [hschema', toInt_sub_one hschema]
  omega

/-- **A run of the loop ends at the first schema where the buckets fit**, or below all of them. -/
theorem LimitLoop.result {limit rounds : Nat} {histogram : Histogram}
    {result : Except String Histogram} (hloop : LimitLoop limit rounds histogram result)
    (h : ∀ side, SideValid histogram side) (hmin : schemaMin.toInt ≤ histogram.schema.toInt) :
    LoopResult limit histogram rounds result := by
  induction hloop with
  | fits hfits =>
      refine .ok (by simp) (Reduced.refl h) ⟨?_, by simp⟩
      rwa [coarseCount_zero h]
  | giveUp hover hlow =>
      rw [Int32.le_iff_toInt_le] at hlow
      refine .error (by omega) fun m hm => ?_
      rwa [Nat.le_zero.mp hm, coarseCount_zero h]
  | @next rounds histogram histogram' result hover habove hok _ ih =>
      rw [Int32.lt_iff_toInt_lt] at habove
      obtain ⟨_, hok', hschema, hreduced⟩ := reduceResolution_one h habove
      cases hok.symm.trans hok'
      -- what is over the limit after this round was over it one schema later
      have hfirst : ∀ m, (∀ k < m, limit < coarseCount histogram' k) →
          ∀ k < m + 1, limit < coarseCount histogram k := by
        intro m hm k hk
        cases k with
        | zero => rwa [coarseCount_zero h]
        | succ k =>
            rw [Nat.add_comm k 1, ← hreduced.coarseCount h]
            exact hm k (by omega)
      cases ih hreduced.valid (by omega) with
      | ok hrest hreduced' hfit =>
          refine .ok (by omega) ?_ ⟨?_, hfirst rounds hfit.2⟩
          · rw [Nat.add_comm rounds 1]
            exact hreduced.trans h hreduced'
          · rw [Nat.add_comm rounds 1, ← hreduced.coarseCount h]
            exact hfit.1
      | error hrest hall =>
          refine .error (by omega) fun m hm => hfirst (rounds + 1) ?_ m (by omega)
          exact fun k hk => hall k (by omega)

/-- **The loop ends within `n` rounds.** -/
theorem limitBuckets_run (limit : Nat) {n : Nat} {histogram : Histogram}
    (h : ∀ side, SideValid histogram side) (hschema : schemaMin.toInt + n = histogram.schema.toInt) :
    ∃ rounds ≤ n, LimitLoop limit rounds histogram (limitBuckets limit n histogram) := by
  induction n generalizing histogram with
  | zero =>
      rw [limitBuckets]
      by_cases hfits : bucketLen histogram .negative + bucketLen histogram .positive ≤ limit
      · rw [if_pos hfits]
        exact ⟨0, Nat.le_refl 0, .fits hfits⟩
      · rw [if_neg hfits]
        refine ⟨0, Nat.le_refl 0, .giveUp (not_le.mp hfits) ?_⟩
        rw [Int32.le_iff_toInt_le]
        omega
  | succ n ih =>
      rw [limitBuckets]
      by_cases hfits : bucketLen histogram .negative + bucketLen histogram .positive ≤ limit
      · rw [if_pos hfits]
        exact ⟨0, Nat.zero_le _, .fits hfits⟩
      · obtain ⟨histogram', hok, hschema', hreduced⟩ := reduceResolution_one h (by omega)
        obtain ⟨rounds, hrounds, hloop⟩ := ih hreduced.valid (by omega)
        rw [if_neg hfits]
        simp only [hok]
        refine ⟨rounds + 1, by omega, .next (not_le.mp hfits) ?_ hok hloop⟩
        rw [Int32.lt_iff_toInt_lt]
        omega

/-! ## The exposed histogram -/

/-- Both sides of an exposed histogram pass the checks. -/
def SidesValidated (histogram : Histogram) : Prop :=
  ∀ side, validateSide side (histogram.spansOf side) (bucketLen histogram side)
    (histogram.deltasOf side) = .ok ()

instance (histogram : Histogram) : Decidable (SidesValidated histogram) :=
  decidable_of_iff
    (validateSide .negative (histogram.spansOf .negative) (bucketLen histogram .negative)
        (histogram.deltasOf .negative) = .ok () ∧
      validateSide .positive (histogram.spansOf .positive) (bucketLen histogram .positive)
        (histogram.deltasOf .positive) = .ok ())
    ⟨fun h side => by cases side; exacts [h.1, h.2], fun h => ⟨h .negative, h .positive⟩⟩

theorem exposedHistogram_representation (exposed : Dto.Histogram) (gauge : Bool) (side : Side) :
    (exposedHistogram exposed gauge).countsOf side = [] ∨
      (exposedHistogram exposed gauge).deltasOf side = [] := by
  cases hfloat : isPositive (orZero exposed.sampleCountFloat) ||
      isPositive (orZero exposed.zeroCountFloat) with
  | true => right; cases side <;> simp [exposedHistogram, Histogram.deltasOf, hfloat]
  | false => left; cases side <;> simp [exposedHistogram, Histogram.countsOf, hfloat]

theorem SidesValidated.valid {exposed : Dto.Histogram} {gauge : Bool}
    (h : SidesValidated (exposedHistogram exposed gauge)) (side : Side) :
    SideValid (exposedHistogram exposed gauge) side := by
  obtain ⟨covered, hspans, hrest⟩ := bind_eq_ok.mp (h side)
  refine ⟨?_, exposedHistogram_representation exposed gauge side⟩
  by_cases hcovered : covered = bucketLen (exposedHistogram exposed gauge) side
  · rw [hspans, hcovered]
  · rw [if_pos hcovered] at hrest
    cases hrest

/-- `native_histogram` after its checks. -/
def limitedHistogram (histogram : Histogram) (bucketLimit : UInt32) : Except String Histogram :=
  if 0 < bucketLimit then
    limitBuckets bucketLimit.toNat (histogram.schema.toInt - schemaMin.toInt).toNat histogram
  else .ok histogram

theorem nativeHistogram_eq {exposed : Dto.Histogram} {gauge : Bool} {bucketLimit : UInt32}
    (hschema : schemaMin ≤ exposed.schema.getD 0)
    (h : SidesValidated (exposedHistogram exposed gauge)) :
    nativeHistogram exposed gauge bucketLimit =
      (if schemaMax < exposed.schema.getD 0 then
        reduceResolution (exposedHistogram exposed gauge) schemaMax
      else .ok (exposedHistogram exposed gauge)) >>=
        fun histogram => limitedHistogram histogram bucketLimit := by
  have hnegative := h .negative
  have hpositive := h .positive
  simp only [Histogram.spansOf, Histogram.deltasOf] at hnegative hpositive
  have hmin : ¬ exposed.schema.getD 0 < schemaMin := by
    rw [Int32.lt_iff_toInt_lt, not_lt, ← Int32.le_iff_toInt_le]
    exact hschema
  rw [nativeHistogram, if_neg hmin]
  simp only [hnegative, hpositive]
  show (if schemaMax < exposed.schema.getD 0 then _ else _) = _
  split
  · rfl
  · rfl

/-- What a histogram that keeps to the limit is to the exposed one. -/
structure WithinLimit (limit : Nat) (exposed returned : Histogram) : Prop where
  fits : bucketLen returned .negative + bucketLen returned .positive ≤ limit
  /-- It has the finest schema at which the buckets fit. -/
  finest : ∃ n : Nat, returned.schema.toInt + n = exposed.schema.toInt ∧
    schemaMin.toInt ≤ returned.schema.toInt ∧ FirstFit limit exposed n
  spans : ∀ side, validateSpans side 0 (returned.spansOf side) 0 0 = .ok (bucketLen returned side)

/-- **A histogram within the schema range comes out at the finest schema that keeps to the limit**,
after at most 12 reductions, or fails because the coarsest has too many buckets. -/
theorem nativeHistogram_limited {exposed : Dto.Histogram} {gauge : Bool} {bucketLimit : UInt32}
    (hmin : schemaMin ≤ exposed.schema.getD 0) (hmax : exposed.schema.getD 0 ≤ schemaMax)
    (hvalid : SidesValidated (exposedHistogram exposed gauge)) (hlimit : 0 < bucketLimit) :
    (∃ rounds ≤ 12, LimitLoop bucketLimit.toNat rounds (exposedHistogram exposed gauge)
      (nativeHistogram exposed gauge bucketLimit)) ∧
    ((∃ returned, nativeHistogram exposed gauge bucketLimit = .ok returned ∧
        WithinLimit bucketLimit.toNat (exposedHistogram exposed gauge) returned) ∨
      nativeHistogram exposed gauge bucketLimit = .error (limitMessage bucketLimit.toNat)) ∧
    (nativeHistogram exposed gauge bucketLimit = .error (limitMessage bucketLimit.toNat) ↔
      bucketLimit.toNat < coarseCount (exposedHistogram exposed gauge)
        ((exposed.schema.getD 0).toInt - schemaMin.toInt).toNat) := by
  have hmaxInt : schemaMax.toInt = 8 := rfl
  have hminInt : schemaMin.toInt = -4 := rfl
  have hnot : ¬ schemaMax < exposed.schema.getD 0 := by
    rw [Int32.lt_iff_toInt_lt, not_lt, ← Int32.le_iff_toInt_le]
    exact hmax
  rw [Int32.le_iff_toInt_le] at hmax
  have hminLe := Int32.le_iff_toInt_le.mp hmin
  have heq : nativeHistogram exposed gauge bucketLimit = limitBuckets bucketLimit.toNat
      ((exposed.schema.getD 0).toInt - schemaMin.toInt).toNat (exposedHistogram exposed gauge) := by
    rw [nativeHistogram_eq hmin hvalid, if_neg hnot]
    exact if_pos hlimit
  have hschema : schemaMin.toInt + ((exposed.schema.getD 0).toInt - schemaMin.toInt).toNat =
      (exposedHistogram exposed gauge).schema.toInt := by
    show _ = (exposed.schema.getD 0).toInt
    omega
  obtain ⟨rounds, hrounds, hloop⟩ := limitBuckets_run bucketLimit.toNat hvalid.valid hschema
  have hresult := hloop.result hvalid.valid (by omega)
  rw [heq]
  refine ⟨⟨rounds, by omega, hloop⟩, ?_⟩
  generalize limitBuckets bucketLimit.toNat _ _ = result at hresult
  cases hresult with
  | ok hrest hreduced hfit =>
      have hfits := coarseCount_antitone hvalid.valid hrounds
      refine ⟨.inl ⟨_, rfl, ?_, ⟨rounds, hrest, by omega, hfit⟩, fun side =>
        (hreduced.valid side).spans⟩, ?_⟩
      · rw [hreduced.bucketLen_eq]
        exact hfit.1
      · exact iff_of_false (by simp) (not_lt.mpr (le_trans hfits hfit.1))
  | error hrest hall =>
      refine ⟨.inr rfl, iff_of_true rfl (hall _ ?_)⟩
      omega

/-- Four buckets on either side of the origin, at schema 2. -/
def eightBuckets : Dto.Histogram :=
  { Dto.Histogram.default with
    sampleCount := some 8
    schema := some 2
    negativeSpan := [⟨some (-3), some 4⟩]
    negativeDelta := [1, 0, 0, 0]
    positiveSpan := [⟨some 1, some 4⟩]
    positiveDelta := [1, 0, 0, 0] }

theorem nativeHistogram_limited_eightBuckets :
    (∃ rounds ≤ 12, LimitLoop 4 rounds (exposedHistogram eightBuckets false)
      (nativeHistogram eightBuckets false 4)) ∧
    ((∃ returned, nativeHistogram eightBuckets false 4 = .ok returned ∧
        WithinLimit 4 (exposedHistogram eightBuckets false) returned) ∨
      nativeHistogram eightBuckets false 4 = .error (limitMessage 4)) ∧
    (nativeHistogram eightBuckets false 4 = .error (limitMessage 4) ↔
      4 < coarseCount (exposedHistogram eightBuckets false) 6) :=
  have hvalid : SidesValidated (exposedHistogram eightBuckets false) := by decide
  have hlimit : (0 : UInt32) < 4 := by decide
  nativeHistogram_limited (by decide) (by decide) hvalid hlimit

end PromScrape
