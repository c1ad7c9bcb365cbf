import PromScrape.Library.Fallible
import PromScrape.Library.MergeRuns
import PromScrape.Implementation.Protobuf
import PromScrape.Spec.NativeHistogram

set_option autoImplicit false

/-! # `merge_buckets` merges the runs of coarser indices

The loop keeps the input position, the last target and the spans built so far. What it has built at
any point lays out the merged runs of the (coarser index, count) pairs it has read. -/

namespace PromScrape

open Fallible (bind_eq_ok map_eq_ok)
open MergeRuns (mergeRuns pushRun)

/-! ## Pieces -/

/-- How far `value >> shift` shifts. -/
def shiftAmount (shift : Int32) : Nat := (shift.toInt % 64).toNat

theorem shiftAmount_eq {shift : Int32} {n : Nat} (h : shift.toInt = n) (hlt : n < 64) :
    shiftAmount shift = n := by
  rw [shiftAmount, h]
  omega

/-- The target that the loop computes is the coarser index. -/
theorem shiftRight_add_one (i : Int) (shift : Int32) :
    shiftRight (i - 1) shift + 1 = coarseIndex (shiftAmount shift) i := rfl

theorem toI32_eq_ok {value : Int} {offset : Int32} (h : toI32 value = .ok offset) :
    offset.toInt = value := by
  unfold toI32 at h
  split at h
  · next hfits =>
      cases h
      simp only [fitsInt32, Bool.and_eq_true, decide_eq_true_eq] at hfits
      exact Int32.toInt_ofInt_of_le hfits.1 hfits.2
  · cases h

theorem toI32_ok {value : Int} (hlo : -2 ^ 31 ≤ value) (hhi : value < 2 ^ 31) :
    ∃ offset, toI32 value = .ok offset := by
  have hfits : fitsInt32 value = true := by
    rw [fitsInt32, Bool.and_eq_true, decide_eq_true_eq, decide_eq_true_eq]
    exact ⟨hlo, hhi⟩
  exact ⟨_, by rw [toI32, if_pos hfits]⟩

theorem modifyLast_concat {α : Type} (f : α → α) (xs : List α) (x : α) :
    modifyLast f (xs ++ [x]) = xs ++ [f x] := by
  rw [modifyLast, List.getLast?_concat]
  simp only [List.dropLast_concat]

theorem spanIndices_append_grown (next : Int) (spans : List BucketSpan) (span : BucketSpan)
    (h : span.length.toNat + 1 < 2 ^ 32) :
    spanIndices next (spans ++ [{ span with length := span.length + 1 }]) =
      spanIndices next (spans ++ [span]) ++ [spanEnd next (spans ++ [span])] := by
  have hsucc : (span.length + 1).toNat = span.length.toNat + 1 := by
    rw [UInt32.toNat_add]
    exact Nat.mod_eq_of_lt h
  simp only [spanIndices_append, spanEnd_append, spanIndices, spanEnd, List.append_nil, hsucc,
    indexRun_succ, List.append_assoc]

/-! ## What has been built -/

section

variable {α : Type} {add : α → α → α} {runs : List (Int × α)} {st st' : MergeState α} {t : Int}
  {v c : α} {rest : List α} {shift : Int32}

/-- The spans and counts of `st` lay out `runs`. -/
structure Emitted (runs : List (Int × α)) (st : MergeState α) : Prop where
  indices : spanIndices 0 st.outSpans = runs.map Prod.fst
  counts : st.outCounts = runs.map Prod.snd
  last : st.last = runs.getLast?.map Prod.fst
  next : ∀ t, st.last = some t → spanEnd 0 st.outSpans = t + 1
  start : st.last = none → st.outSpans = []
  canonical : Canonical st.outSpans

theorem Emitted.init (counts : List α) (index : Int) :
    Emitted (α := α) [] ⟨[], [], counts, index, none⟩ where
  indices := rfl
  counts := rfl
  last := rfl
  next := by
    intro t h
    cases h
  start := fun _ => rfl
  canonical := ⟨by simp, by simp⟩

theorem Emitted.spans_ne_nil (h : Emitted (runs ++ [(t, v)]) st) : st.outSpans ≠ [] := by
  intro hnil
  have hindices := h.indices
  rw [hnil] at hindices
  simp [spanIndices] at hindices

/-- No span of `runs` is longer than `runs`. -/
theorem Emitted.length_le (h : Emitted runs st) {span : BucketSpan} (hspan : span ∈ st.outSpans) :
    span.length.toNat ≤ runs.length := by
  obtain ⟨before, after, hsplit⟩ := List.append_of_mem hspan
  have hlength := congrArg List.length h.indices
  rw [hsplit, spanIndices_append, spanIndices] at hlength
  simp only [List.length_append, length_indexRun, List.length_map] at hlength
  omega

/-- The count of the last bucket grows. -/
theorem Emitted.grow (h : Emitted (runs ++ [(t, v)]) st) (counts : List α) (index : Int) :
    Emitted (runs ++ [(t, add v c)])
      ⟨st.outSpans, modifyLast (add · c) st.outCounts, counts, index, some t⟩ where
  indices := by simpa using h.indices
  counts := by
    show modifyLast _ st.outCounts = _
    rw [h.counts, List.map_append, List.map_singleton, modifyLast_concat]
    simp
  last := by simp
  next := by
    intro t' ht'
    cases ht'
    exact h.next t (by simp [h.last])
  start := by
    intro h'
    cases h'
  canonical := h.canonical

/-- A bucket next to the last one, in the same span. -/
theorem Emitted.extend (h : Emitted (runs ++ [(t, v)]) st) (hlen : runs.length + 2 < 2 ^ 32)
    (counts : List α) (index : Int) :
    Emitted (runs ++ [(t, v)] ++ [(t + 1, c)])
      ⟨modifyLast (fun span => { span with length := span.length + 1 }) st.outSpans,
        st.outCounts ++ [c], counts, index, some (t + 1)⟩ := by
  obtain ⟨spans, span, hspans⟩ := (List.eq_nil_or_concat st.outSpans).resolve_left h.spans_ne_nil
  rw [List.concat_eq_append] at hspans
  have hnext : spanEnd 0 (spans ++ [span]) = t + 1 := by
    rw [← hspans]
    exact h.next t (by simp [h.last])
  have hlength : span.length.toNat + 1 < 2 ^ 32 := by
    have hle : span.length.toNat ≤ _ := h.length_le (by simp [hspans])
    rw [List.length_append, List.length_singleton] at hle
    omega
  have hsucc : (span.length + 1).toNat = span.length.toNat + 1 := by
    rw [UInt32.toNat_add]
    exact Nat.mod_eq_of_lt hlength
  have hindices := h.indices
  have hcanonical := h.canonical
  rw [hspans] at hindices hcanonical
  obtain ⟨hinit, -, hoffset⟩ := canonical_append_singleton.mp hcanonical
  rw [hspans, modifyLast_concat]
  refine ⟨?_, ?_, by simp, ?_, ?_, ?_⟩
  · show spanIndices 0 _ = _
    rw [spanIndices_append_grown 0 spans span hlength, hindices, hnext]
    simp
  · simp [h.counts]
  · intro t' ht'
    cases ht'
    simp only [spanEnd_append, spanEnd, hsucc] at hnext ⊢
    push_cast
    omega
  · intro h'
    cases h'
  · refine canonical_append_singleton.mpr ⟨hinit, ?_, hoffset⟩
    show 0 < (span.length + 1).toNat
    omega

/-- A bucket in a span of its own. -/
theorem Emitted.push (h : Emitted runs st) {offset : Int32}
    (hoffset : offset.toInt = t - spanEnd 0 st.outSpans)
    (hpos : st.outSpans ≠ [] → 0 < offset.toInt) (counts : List α) (index : Int) :
    Emitted (runs ++ [(t, c)])
      ⟨st.outSpans ++ [⟨offset, 1⟩], st.outCounts ++ [c], counts, index, some t⟩ where
  indices := by
    show spanIndices 0 _ = _
    rw [spanIndices_append, h.indices]
    have hone : spanIndices (spanEnd 0 st.outSpans) [⟨offset, 1⟩] = [t] := by
      simp only [spanIndices, hoffset, List.append_nil]
      rw [show (1 : UInt32).toNat = 0 + 1 from rfl, indexRun, indexRun]
      simp
    rw [hone, List.map_append]
    rfl
  counts := by simp [h.counts]
  last := by simp
  next := by
    intro t' ht'
    cases ht'
    show spanEnd 0 _ = _
    simp only [spanEnd_append, spanEnd, hoffset]
    rw [show (1 : UInt32).toNat = 1 from rfl]
    push_cast
    omega
  start := by
    intro h'
    cases h'
  canonical := canonical_append_singleton.mpr ⟨h.canonical, Nat.one_pos, hpos⟩

/-! ## One bucket -/

/-- What the bucket `t`, its count `c` and the counts behind it make of a state. -/
inductive BucketStep (add : α → α → α) (t : Int) (c : α) (rest : List α) (st : MergeState α) :
    MergeState α → Prop where
  | first {offset : Int32} (hlast : st.last = none) (hoffset : toI32 t = .ok offset) :
      BucketStep add t c rest st ⟨st.outSpans ++ [⟨offset, 1⟩], st.outCounts ++ [c], rest,
        st.index + 1, some t⟩
  | same (hlast : st.last = some t) :
      BucketStep add t c rest st ⟨st.outSpans, modifyLast (add · c) st.outCounts, rest,
        st.index + 1, some t⟩
  | next {last : Int} (hlast : st.last = some last) (hnext : last + 1 = t) :
      BucketStep add t c rest st
        ⟨modifyLast (fun span => { span with length := span.length + 1 }) st.outSpans,
          st.outCounts ++ [c], rest, st.index + 1, some t⟩
  | apart {last : Int} {offset : Int32} (hlast : st.last = some last) (hsame : last ≠ t)
      (hnext : last + 1 ≠ t) (hoffset : toI32 (t - last - 1) = .ok offset) :
      BucketStep add t c rest st ⟨st.outSpans ++ [⟨offset, 1⟩], st.outCounts ++ [c], rest,
        st.index + 1, some t⟩

theorem mergeBucket_step (ht : t = coarseIndex (shiftAmount shift) st.index)
    (hok : mergeBucket add shift st = .ok st') :
    ∃ c rest, st.counts = c :: rest ∧ BucketStep add t c rest st st' := by
  unfold mergeBucket at hok
  cases hcounts : st.counts with
  | nil =>
      rw [hcounts] at hok
      cases hok
  | cons c rest =>
      refine ⟨c, rest, rfl, ?_⟩
      simp only [hcounts, shiftRight_add_one, ← ht] at hok
      cases hlast : st.last with
      | none =>
          rw [hlast] at hok
          obtain ⟨offset, hoffset, rfl⟩ := map_eq_ok.mp hok
          exact .first hlast hoffset
      | some last =>
          simp only [hlast] at hok
          by_cases hsame : last = t
          · rw [if_pos hsame] at hok
            cases hok
            rw [hsame] at hlast
            exact .same hlast
          rw [if_neg hsame] at hok
          by_cases hnext : last + 1 = t
          · rw [if_pos hnext] at hok
            cases hok
            exact .next hlast hnext
          · rw [if_neg hnext] at hok
            obtain ⟨offset, hoffset, rfl⟩ := map_eq_ok.mp hok
            exact .apart hlast hsame hnext hoffset

theorem BucketStep.frame (h : BucketStep add t c rest st st') :
    st'.counts = rest ∧ st'.index = st.index + 1 ∧ st'.last = some t := by
  cases h <;> exact ⟨rfl, rfl, rfl⟩

/-- One bucket that does not go back extends the runs. -/
theorem Emitted.step (h : Emitted runs st) (hle : ∀ t', st.last = some t' → t' ≤ t)
    (hlen : (pushRun add runs (t, c)).length < 2 ^ 32) (hstep : BucketStep add t c rest st st') :
    Emitted (pushRun add runs (t, c)) st' := by
  cases hstep with
  | first hlast hoffset =>
      have hspans := h.start hlast
      obtain rfl := MergeRuns.eq_nil_of_getLast?_key (h.last.symm.trans hlast)
      refine h.push ?_ (fun hne => absurd hspans hne) _ _
      rw [toI32_eq_ok hoffset, hspans, spanEnd, sub_zero]
  | same hlast =>
      obtain ⟨init, v, rfl⟩ := MergeRuns.eq_concat_of_getLast?_key (h.last.symm.trans hlast)
      rw [MergeRuns.pushRun_same]
      exact h.grow _ _
  | @next last hlast hnext =>
      obtain ⟨init, v, rfl⟩ := MergeRuns.eq_concat_of_getLast?_key (h.last.symm.trans hlast)
      have hsame : last ≠ t := by omega
      subst hnext
      rw [MergeRuns.pushRun_other hsame] at hlen ⊢
      refine h.extend ?_ _ _
      simpa using hlen
  | @apart last offset hlast hsame hnext hoffset =>
      obtain ⟨init, v, rfl⟩ := MergeRuns.eq_concat_of_getLast?_key (h.last.symm.trans hlast)
      have hback := hle last hlast
      have hend := h.next last hlast
      have hvalue := toI32_eq_ok hoffset
      rw [MergeRuns.pushRun_other hsame]
      refine h.push ?_ (fun _ => ?_) _ _
      · omega
      · omega

/-- Targets within half the `i32` range are never too far apart. -/
theorem mergeBucket_ok (hcounts : st.counts = c :: rest)
    (ht : t = coarseIndex (shiftAmount shift) st.index) (hlo : -2 ^ 30 ≤ t) (hhi : t ≤ 2 ^ 30)
    (hle : ∀ t', st.last = some t' → -2 ^ 30 ≤ t' ∧ t' ≤ t) :
    ∃ st', mergeBucket add shift st = .ok st' ∧ st'.last = some t ∧ st'.counts = rest ∧
      st'.index = st.index + 1 := by
  rw [mergeBucket, hcounts]
  simp only [shiftRight_add_one, ← ht]
  cases hlast : st.last with
  | none =>
      obtain ⟨offset, hoffset⟩ : ∃ offset, toI32 t = .ok offset :=
        toI32_ok (by omega) (by omega)
      exact ⟨_, by rw [hoffset]; rfl, rfl, rfl, rfl⟩
  | some last =>
      obtain ⟨hlow, hback⟩ := hle last hlast
      simp only
      split
      · exact ⟨_, rfl, rfl, rfl, rfl⟩
      · split
        · exact ⟨_, rfl, rfl, rfl, rfl⟩
        · obtain ⟨offset, hoffset⟩ : ∃ offset, toI32 (t - last - 1) = .ok offset :=
            toI32_ok (by omega) (by omega)
          exact ⟨_, by rw [hoffset]; rfl, rfl, rfl, rfl⟩

/-! ## The whole loop -/

/-- The buckets at the given indices, one after the other. -/
def mergeIndices (add : α → α → α) (shift : Int32) :
    List Int → MergeState α → Except String (MergeState α)
  | [], st => .ok st
  | i :: rest, st => do mergeIndices add shift rest (← mergeBucket add shift { st with index := i })

theorem mergeIndices_append {is js : List Int} :
    mergeIndices add shift (is ++ js) st =
      mergeIndices add shift is st >>= mergeIndices add shift js := by
  induction is generalizing st with
  | nil => rfl
  | cons i rest ih =>
      rw [List.cons_append, mergeIndices, mergeIndices]
      cases mergeBucket add shift { st with index := i } with
      | error message => rfl
      | ok st' => exact ih

theorem mergeBucket_index (h : mergeBucket add shift st = .ok st') : st'.index = st.index + 1 := by
  obtain ⟨c, rest, -, hstep⟩ := mergeBucket_step rfl h
  exact hstep.frame.2.1

/-- What a result of the loop is apart from the input position. -/
def outputs (st : MergeState α) : List BucketSpan × List α := (st.outSpans, st.outCounts)

/-- The buckets of one span, and then something. -/
theorem mergeRun_bind {β : Type} (f : MergeState α → Except String β) (n : Nat) :
    mergeRun add shift n st >>= f =
      mergeIndices add shift (indexRun st.index n) st >>= fun st' =>
        f { st' with index := st.index + n } := by
  induction n generalizing st with
  | zero =>
      show f st = f { st with index := st.index + (0 : Nat) }
      simp
  | succ n ih =>
      rw [mergeRun, indexRun, mergeIndices]
      cases hst : mergeBucket add shift st with
      | error message => rfl
      | ok st' =>
          have hindex := mergeBucket_index hst
          show mergeRun add shift n st' >>= f = mergeIndices add shift _ st' >>= _
          rw [ih, hindex]
          push_cast
          simp only [add_assoc, add_comm (1 : Int)]

/-- Where the loop stands does not matter when the indices are given. -/
theorem mergeIndices_outputs_index (is : List Int) (index : Int) :
    (mergeIndices add shift is { st with index := index }).map outputs =
      (mergeIndices add shift is st).map outputs := by
  cases is with
  | nil => rfl
  | cons i rest => rfl

theorem mergeSpans_outputs (spans : List BucketSpan) :
    (mergeSpans add shift spans st).map outputs =
      (mergeIndices add shift (spanIndices st.index spans) st).map outputs := by
  induction spans generalizing st with
  | nil => rfl
  | cons span rest ih =>
      rw [spanIndices, mergeIndices_append]
      show Except.map outputs (mergeRun add shift span.length.toNat
        { st with index := st.index + span.offset.toInt } >>= mergeSpans add shift rest) = _
      rw [mergeRun_bind]
      -- from the same state, the rest is read the same way
      have hrest : ∀ st' : MergeState α, ∀ index : Int,
          (mergeSpans add shift rest { st' with index := index }).map outputs =
            (mergeIndices add shift (spanIndices index rest) st').map outputs := by
        intro st' index
        rw [ih]
        exact mergeIndices_outputs_index _ _
      cases indexRun (st.index + span.offset.toInt) span.length.toNat with
      | nil => exact hrest st _
      | cons i is =>
          show Except.map outputs (mergeIndices add shift (i :: is) st >>= _) = _
          cases mergeIndices add shift (i :: is) st with
          | error message => rfl
          | ok st' => exact hrest st' _

theorem Emitted.with_index (h : Emitted runs st) (index : Int) :
    Emitted runs { st with index := index } :=
  ⟨h.indices, h.counts, h.last, h.next, h.start, h.canonical⟩

/-- **Ascending buckets are merged into runs**, as long as fewer than `2 ^ 32` come out. -/
theorem mergeIndices_emits {is : List Int} (h : Emitted runs st) (hsorted : is.Pairwise (· ≤ ·))
    (hle : ∀ t, st.last = some t → ∀ i ∈ is, t ≤ coarseIndex (shiftAmount shift) i)
    (hlen : ((coarsePairs (shiftAmount shift) is st.counts).foldl (pushRun add) runs).length <
      2 ^ 32)
    (hok : mergeIndices add shift is st = .ok st') :
    is.length ≤ st.counts.length ∧
      Emitted ((coarsePairs (shiftAmount shift) is st.counts).foldl (pushRun add) runs) st' := by
  induction is generalizing st runs with
  | nil =>
      cases hok
      exact ⟨Nat.zero_le _, h⟩
  | cons i is ih =>
      obtain ⟨hfirst, hsorted⟩ := List.pairwise_cons.mp hsorted
      obtain ⟨st₁, hst₁, hok⟩ := bind_eq_ok.mp hok
      obtain ⟨c, rest, hcounts, hstep⟩ := mergeBucket_step rfl hst₁
      have hcounts : st.counts = c :: rest := hcounts
      obtain ⟨hrest, -, hlast₁⟩ := hstep.frame
      simp only [hcounts, coarsePairs, List.map_cons, List.zip_cons_cons, List.foldl_cons] at hlen ⊢
      have hemitted := (h.with_index i).step (fun t ht => hle t ht i List.mem_cons_self)
        (lt_of_le_of_lt MergeRuns.length_le_foldl_pushRun hlen) hstep
      have hlast : ∀ t, st₁.last = some t → ∀ j ∈ is, t ≤ coarseIndex (shiftAmount shift) j := by
        intro t ht j hj
        rw [hlast₁, Option.some.injEq] at ht
        rw [← ht]
        exact coarseIndex_mono _ (hfirst j hj)
      rw [← hrest] at hlen ⊢
      obtain ⟨hlength, hfinal⟩ := ih hemitted hsorted hlast hlen hok
      exact ⟨by simpa using hlength, hfinal⟩

theorem mergeIndices_ok {is : List Int} (hsorted : is.Pairwise (· ≤ ·))
    (hbound : ∀ i ∈ is, -2 ^ 30 ≤ coarseIndex (shiftAmount shift) i ∧
      coarseIndex (shiftAmount shift) i ≤ 2 ^ 30)
    (hlength : is.length ≤ st.counts.length)
    (hlast : ∀ t, st.last = some t →
      -2 ^ 30 ≤ t ∧ ∀ i ∈ is, t ≤ coarseIndex (shiftAmount shift) i) :
    ∃ st', mergeIndices add shift is st = .ok st' := by
  induction is generalizing st with
  | nil => exact ⟨st, rfl⟩
  | cons i is ih =>
      obtain ⟨hfirst, hsorted⟩ := List.pairwise_cons.mp hsorted
      obtain ⟨hlo, hhi⟩ := hbound i List.mem_cons_self
      cases hcounts : st.counts with
      | nil =>
          rw [hcounts] at hlength
          cases hlength
      | cons c rest =>
          obtain ⟨st₁, hst₁, hlast₁, hrest, -⟩ : ∃ st₁,
              mergeBucket add shift { st with index := i } = .ok st₁ ∧ st₁.last = some _ ∧
                st₁.counts = rest ∧ st₁.index = i + 1 :=
            mergeBucket_ok hcounts rfl hlo hhi
              (fun t ht => ⟨(hlast t ht).1, (hlast t ht).2 i List.mem_cons_self⟩)
          rw [mergeIndices, hst₁]
          refine ih hsorted (fun j hj => hbound j (List.mem_cons_of_mem _ hj)) ?_ ?_
          · rw [hrest]
            rw [hcounts] at hlength
            simpa using hlength
          · intro t ht
            rw [hlast₁, Option.some.injEq] at ht
            subst ht
            exact ⟨hlo, fun j hj => coarseIndex_mono _ (hfirst j hj)⟩

/-! ## Spans in, spans out -/

variable {spans : List BucketSpan} {counts : List α} {out : List BucketSpan × List α}

theorem mergeBuckets_eq : mergeBuckets add spans counts shift =
    (mergeIndices add shift (spanIndices 0 spans) ⟨[], [], counts, 0, none⟩).map outputs :=
  mergeSpans_outputs spans

/-- The runs that merging makes of spans and counts. -/
def mergedRuns (add : α → α → α) (n : Nat) (spans : List BucketSpan) (counts : List α) :
    List (Int × α) :=
  mergeRuns add (coarsePairs n (spanIndices 0 spans) counts)

/-- `out` lays out `runs`. -/
structure LaysOut (runs : List (Int × α)) (out : List BucketSpan × List α) : Prop where
  indices : spanIndices 0 out.1 = runs.map Prod.fst
  counts : out.2 = runs.map Prod.snd
  canonical : Canonical out.1

theorem mergeBuckets_laysOut (hsorted : (spanIndices 0 spans).Pairwise (· < ·))
    (hlen : (mergedRuns add (shiftAmount shift) spans counts).length < 2 ^ 32)
    (hok : mergeBuckets add spans counts shift = .ok out) :
    (spanIndices 0 spans).length ≤ counts.length ∧
      LaysOut (mergedRuns add (shiftAmount shift) spans counts) out := by
  rw [mergeBuckets_eq] at hok
  obtain ⟨st, hst, rfl⟩ := map_eq_ok.mp hok
  obtain ⟨hlength, hemitted⟩ := mergeIndices_emits (Emitted.init counts 0) (hsorted.imp le_of_lt)
    (by simp) hlen hst
  exact ⟨hlength, hemitted.indices, hemitted.counts, hemitted.canonical⟩

theorem mergeBuckets_ok (hsorted : (spanIndices 0 spans).Pairwise (· < ·))
    (hbound : ∀ i ∈ spanIndices 0 spans, -2 ^ 31 ≤ i ∧ i < 2 ^ 31)
    (hlength : (spanIndices 0 spans).length ≤ counts.length) (hshift : 1 ≤ shiftAmount shift) :
    ∃ out, mergeBuckets add spans counts shift = .ok out := by
  rw [mergeBuckets_eq]
  obtain ⟨st, hst⟩ : ∃ st, mergeIndices add shift _ ⟨[], [], counts, 0, none⟩ = .ok st :=
    mergeIndices_ok (hsorted.imp le_of_lt)
      (fun i hi => coarseIndex_bounds hshift (hbound i hi).1 (hbound i hi).2) hlength (by simp)
  exact ⟨_, by rw [hst]; rfl⟩

end

/-! ## Validated spans -/

/-- What the checks of one span say. -/
theorem validateSpans_cons {side : Side} {i covered total : Nat} {span : BucketSpan}
    {rest : List BucketSpan} {next : Int}
    (h : validateSpans side i (span :: rest) covered next = .ok total) :
    (0 < i → 0 ≤ span.offset.toInt) ∧ -2 ^ 31 ≤ next + span.offset.toInt ∧
      next + span.offset.toInt + span.length.toNat ≤ 2 ^ 31 ∧
      validateSpans side (i + 1) rest (covered + span.length.toNat)
        (next + span.offset.toInt + span.length.toNat) = .ok total := by
  rw [validateSpans] at h
  split at h
  · cases h
  · next hoffset =>
      dsimp only at h
      split at h
      · cases h
      · next hfits =>
          simp only [fitsInt32, Bool.or_eq_true, Bool.not_eq_true', Bool.and_eq_false_iff,
            decide_eq_false_iff_not, not_or, not_not] at hfits
          refine ⟨fun hi => ?_, by omega, by omega, h⟩
          by_contra hneg
          refine hoffset ⟨hi, ?_⟩
          rw [Int32.lt_iff_toInt_lt]
          simpa using hneg

theorem validateSpans_ok {side : Side} {i covered total : Nat} {spans : List BucketSpan}
    {next : Int} (h : validateSpans side i spans covered next = .ok total) :
    total = covered + (spanIndices next spans).length ∧
      (spanIndices next spans).Pairwise (· < ·) ∧
      (∀ j ∈ spanIndices next spans, -2 ^ 31 ≤ j ∧ j < 2 ^ 31) ∧
      (0 < i → ∀ j ∈ spanIndices next spans, next ≤ j) := by
  induction spans generalizing i covered next with
  | nil =>
      cases h
      simp [spanIndices]
  | cons span rest ih =>
      obtain ⟨hforward, hlo, hhi, h⟩ := validateSpans_cons h
      obtain ⟨htotal, hsorted, hbound, hnext⟩ := ih h
      have hback := hnext (Nat.succ_pos i)
      rw [spanIndices]
      refine ⟨?_, ?_, ?_, ?_⟩
      · rw [List.length_append, length_indexRun, htotal]
        omega
      · refine List.pairwise_append.mpr ⟨indexRun_pairwise _ _, hsorted, ?_⟩
        intro a ha b hb
        have hrun := mem_indexRun.mp ha
        have hrest := hback b hb
        omega
      · intro j hj
        rcases List.mem_append.mp hj with hrun | hrest
        · have hmem := mem_indexRun.mp hrun
          omega
        · exact hbound j hrest
      · intro hi j hj
        have hoffset := hforward hi
        rcases List.mem_append.mp hj with hrun | hrest
        · have hmem := mem_indexRun.mp hrun
          omega
        · have hle := hback j hrest
          omega

/-- Validated spans lay out exactly the exposed buckets, ascending within `i32`. -/
theorem validateSide_inRange {side : Side} {spans : List BucketSpan} {buckets : Nat}
    {deltas : List Int64} (h : validateSide side spans buckets deltas = .ok ()) :
    InRange spans ∧ (spanIndices 0 spans).length = buckets := by
  obtain ⟨covered, hspans, hrest⟩ := bind_eq_ok.mp h
  obtain ⟨htotal, hsorted, hbound, -⟩ := validateSpans_ok hspans
  rw [Nat.zero_add] at htotal
  refine ⟨⟨hsorted, hbound⟩, ?_⟩
  by_cases hcovered : covered = buckets
  · rw [← htotal, hcovered]
  · rw [if_pos hcovered] at hrest
    cases hrest

/-! ## Merging validated spans -/

section

variable {α : Type} {add : α → α → α} {spans : List BucketSpan} {counts : List α}
  {out : List BucketSpan × List α} {n : Nat} {shift : Int32}

theorem mem_mergedRuns_keys (hlength : (spanIndices 0 spans).length ≤ counts.length) {j : Int} :
    j ∈ (mergedRuns add n spans counts).map Prod.fst ↔
      ∃ i ∈ spanIndices 0 spans, coarseIndex n i = j := by
  rw [mergedRuns, MergeRuns.mem_keys_mergeRuns, coarsePairs_keys hlength, List.mem_map]

theorem coarsePairs_ascending (h : InRange spans)
    (hlength : (spanIndices 0 spans).length ≤ counts.length) :
    ((coarsePairs n (spanIndices 0 spans) counts).map Prod.fst).Pairwise (· ≤ ·) := by
  rw [coarsePairs_keys hlength, List.pairwise_map]
  exact h.ascending.imp fun hlt => coarseIndex_mono n (le_of_lt hlt)

theorem mergedRuns_ascending (h : InRange spans)
    (hlength : (spanIndices 0 spans).length ≤ counts.length) :
    ((mergedRuns add n spans counts).map Prod.fst).Pairwise (· < ·) :=
  MergeRuns.mergeRuns_pairwise (coarsePairs_ascending h hlength)

/-- Coarser by a schema or more, the runs are too few to overflow a span's length. -/
theorem length_mergedRuns_lt (h : InRange spans) (hn : 1 ≤ n)
    (hlength : (spanIndices 0 spans).length ≤ counts.length) :
    (mergedRuns add n spans counts).length < 2 ^ 32 := by
  have hbound : ∀ j ∈ (mergedRuns add n spans counts).map Prod.fst, -2 ^ 30 ≤ j ∧ j ≤ 2 ^ 30 := by
    intro j hj
    obtain ⟨i, hi, rfl⟩ := (mem_mergedRuns_keys hlength).mp hj
    exact coarseIndex_bounds hn (h.bounds i hi).1 (h.bounds i hi).2
  have hle := length_le_of_ascending (mergedRuns_ascending h hlength) hbound
  rw [List.length_map] at hle
  omega

theorem LaysOut.length (h : LaysOut (mergedRuns add n spans counts) out) :
    (spanIndices 0 out.1).length = out.2.length := by
  rw [h.indices, h.counts, List.length_map, List.length_map]

/-- The result is in range again. -/
theorem LaysOut.inRange (h : LaysOut (mergedRuns add n spans counts) out) (hin : InRange spans)
    (hlength : (spanIndices 0 spans).length ≤ counts.length)
    (hbound : ∀ i ∈ spanIndices 0 spans, -2 ^ 31 ≤ coarseIndex n i ∧ coarseIndex n i < 2 ^ 31) :
    InRange out.1 := by
  constructor
  · rw [h.indices]
    exact mergedRuns_ascending hin hlength
  · intro j hj
    rw [h.indices, mem_mergedRuns_keys hlength] at hj
    obtain ⟨i, hi, rfl⟩ := hj
    exact hbound i hi

theorem LaysOut.mergedInto (h : LaysOut (mergedRuns add n spans counts) out) (hin : InRange spans)
    (hlength : (spanIndices 0 spans).length ≤ counts.length) :
    MergedInto add n spans counts out where
  ascending := by
    rw [h.indices]
    exact mergedRuns_ascending hin hlength
  indices j := by rw [h.indices, mem_mergedRuns_keys hlength]
  length := h.length.symm
  sums j c hmem := by
    rw [h.indices, h.counts, ← List.unzip_fst, ← List.unzip_snd, List.zip_unzip] at hmem
    exact MergeRuns.total_of_mem_mergeRuns (coarsePairs_ascending hin hlength) hmem
  canonical := h.canonical

/-- Both lay out the same runs, so they are the same. -/
theorem LaysOut.unique {runs : List (Int × α)} {out' : List BucketSpan × List α}
    (h : LaysOut runs out) (h' : LaysOut runs out') : out = out' :=
  Prod.ext (h.canonical.eq_of_spanIndices h'.canonical (h.indices.trans h'.indices.symm))
    (h.counts.trans h'.counts.symm)

/-- The runs of a laid out merge are those of the merge in one step. -/
theorem LaysOut.mergedRuns_eq (hassoc : ∀ a b c, add (add a b) c = add a (add b c)) {a b : Nat}
    (h : LaysOut (mergedRuns add a spans counts) out) :
    mergedRuns add b out.1 out.2 = mergedRuns add (a + b) spans counts := by
  have hpairs : coarsePairs b (spanIndices 0 out.1) out.2 =
      (mergedRuns add a spans counts).map fun p => (coarseIndex b p.1, p.2) := by
    rw [h.indices, h.counts, coarsePairs, ← List.unzip_fst, ← List.unzip_snd, List.zip_map_left,
      List.zip_unzip]
    rfl
  rw [mergedRuns, hpairs, mergedRuns, MergeRuns.mergeRuns_map hassoc, coarsePairs_map, mergedRuns]

/-- Validated spans are merged as they should. -/
theorem mergeBuckets_inRange (add : α → α → α) (shift : Int32) (hin : InRange spans)
    (hlength : (spanIndices 0 spans).length ≤ counts.length) (hshift : 1 ≤ shiftAmount shift) :
    ∃ out, mergeBuckets add spans counts shift = .ok out ∧
      LaysOut (mergedRuns add (shiftAmount shift) spans counts) out ∧ InRange out.1 := by
  obtain ⟨out, hout⟩ : ∃ out, mergeBuckets add spans counts shift = .ok out :=
    mergeBuckets_ok hin.ascending hin.bounds hlength hshift
  obtain ⟨-, hlays⟩ := mergeBuckets_laysOut hin.ascending (length_mergedRuns_lt hin hshift hlength)
    hout
  refine ⟨out, hout, hlays, hlays.inRange hin hlength fun i hi => ?_⟩
  have hbound := coarseIndex_bounds hshift (hin.bounds i hi).1 (hin.bounds i hi).2
  omega

/-- **Merging validated spans gives the coarser buckets and their sums, in canonical spans**, and
merging in two steps is merging once. -/
theorem mergeBuckets_merges (hassoc : ∀ a b c, add (add a b) c = add a (add b c)) {side : Side}
    {deltas : List Int64} (hvalid : validateSide side spans counts.length deltas = .ok ()) :
    (∀ shift : Int32, 1 ≤ shift.toInt → shift.toInt ≤ 63 →
      ∃ out, mergeBuckets add spans counts shift = .ok out ∧
        MergedInto add shift.toInt.toNat spans counts out) ∧
    ∀ a b : Int32, 1 ≤ a.toInt → 1 ≤ b.toInt → a.toInt + b.toInt ≤ 63 →
      ∃ mid out, mergeBuckets add spans counts a = .ok mid ∧
        mergeBuckets add mid.1 mid.2 b = .ok out ∧
        mergeBuckets add spans counts (a + b) = .ok out := by
  obtain ⟨hin, hcovered⟩ := validateSide_inRange hvalid
  have hlength := le_of_eq hcovered
  have hamount : ∀ shift : Int32, 1 ≤ shift.toInt → shift.toInt ≤ 63 →
      shiftAmount shift = shift.toInt.toNat := fun shift hlo hhi =>
    shiftAmount_eq (by omega) (by omega)
  constructor
  · intro shift hlo hhi
    have hshift := hamount shift hlo hhi
    obtain ⟨out, hout, hlays, -⟩ := mergeBuckets_inRange add shift hin hlength (by omega)
    rw [hshift] at hlays
    exact ⟨out, hout, hlays.mergedInto hin hlength⟩
  · intro a b ha hb hsum
    have hsumInt : (a + b).toInt = a.toInt + b.toInt := by
      rw [Int32.toInt_add, Int.bmod_eq_of_le (by omega) (by omega)]
    have hshifta := hamount a (by omega) (by omega)
    have hshiftb := hamount b (by omega) (by omega)
    have hshift : shiftAmount (a + b) = shiftAmount a + shiftAmount b := by
      rw [hamount (a + b) (by omega) (by omega), hshifta, hshiftb, hsumInt]
      omega
    obtain ⟨mid, hmid, hlaysMid, hinMid⟩ := mergeBuckets_inRange add a hin hlength (by omega)
    obtain ⟨out, hout, hlays, -⟩ := mergeBuckets_inRange add b hinMid
      (le_of_eq hlaysMid.length) (by omega)
    obtain ⟨out', hout', hlays', -⟩ := mergeBuckets_inRange add (a + b) hin hlength
      (by omega)
    rw [hlaysMid.mergedRuns_eq hassoc, ← hshift] at hlays
    rw [hlays'.unique hlays] at hout'
    exact ⟨mid, out, hmid, hout, hout'⟩

/-- Four buckets, around the origin, in three spans. -/
def fourBuckets : List BucketSpan := [⟨-1, 2⟩, ⟨1, 0⟩, ⟨0, 2⟩]

theorem mergeBuckets_merges_fourBuckets :
    (∀ shift : Int32, 1 ≤ shift.toInt → shift.toInt ≤ 63 →
      ∃ out, mergeBuckets (· + ·) fourBuckets [1, 2, 3, 4] shift = .ok out ∧
        MergedInto (· + ·) shift.toInt.toNat fourBuckets [1, 2, 3, 4] out) ∧
    ∀ a b : Int32, 1 ≤ a.toInt → 1 ≤ b.toInt → a.toInt + b.toInt ≤ 63 →
      ∃ mid out : List BucketSpan × List Nat,
        mergeBuckets (· + ·) fourBuckets [1, 2, 3, 4] a = .ok mid ∧
        mergeBuckets (· + ·) mid.1 mid.2 b = .ok out ∧
        mergeBuckets (· + ·) fourBuckets [1, 2, 3, 4] (a + b) = .ok out :=
  have hvalid : validateSide .positive fourBuckets [1, 2, 3, 4].length [] = .ok () := by decide
  mergeBuckets_merges Nat.add_assoc hvalid

end

end PromScrape
