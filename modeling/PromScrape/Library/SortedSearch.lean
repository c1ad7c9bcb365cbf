import Mathlib

set_option autoImplicit false

/-! # Sorted vectors as sets

`sort(); dedup()` and `binary_search` of a slice, over any linear order: the first gives a strictly
increasing list with the same elements, and on such a list the second finds exactly the positions
of its elements. -/

namespace SortedSearch

variable {α : Type} [LinearOrder α]

/-! ## Sorting -/

/-- `sort(); dedup()`, where `dedup` drops consecutive repetitions only. -/
def sortDedup (xs : List α) : List α := (xs.insertionSort (· ≤ ·)).destutter (· ≠ ·)

theorem sortDedup_eq_dedup (xs : List α) : sortDedup xs = (xs.insertionSort (· ≤ ·)).dedup :=
  (List.pairwise_insertionSort (· ≤ ·) xs).destutter_eq_dedup

@[simp] theorem mem_sortDedup {xs : List α} {x : α} : x ∈ sortDedup xs ↔ x ∈ xs := by
  rw [sortDedup_eq_dedup, List.mem_dedup, List.mem_insertionSort]

theorem pairwise_sortDedup (xs : List α) : (sortDedup xs).Pairwise (· < ·) := by
  have hle : (sortDedup xs).Pairwise (· ≤ ·) :=
    (List.pairwise_insertionSort (· ≤ ·) xs).sublist (List.destutter_sublist ..)
  have hne : (sortDedup xs).Pairwise (· ≠ ·) := by
    rw [sortDedup_eq_dedup]
    exact List.nodup_dedup _
  exact (hle.and hne).imp fun h => lt_of_le_of_ne h.1 h.2

/-- Strictly increasing lists with the same elements are equal. -/
theorem eq_of_mem_iff {xs ys : List α} (hxs : xs.Pairwise (· < ·)) (hys : ys.Pairwise (· < ·))
    (hmem : ∀ x, x ∈ xs ↔ x ∈ ys) : xs = ys :=
  ((List.perm_ext_iff_of_nodup (hxs.imp ne_of_lt) (hys.imp ne_of_lt)).mpr hmem).eq_of_pairwise'
    hxs hys

/-! ## Searching -/

/-- The rounds of `binary_search` that are left when `size` candidates start at `base`: the last
candidate standing. -/
def narrow (xs : List α) (x : α) : Nat → Nat → Nat → Nat
  | 0, _, base => base
  | n + 1, size, base =>
      if size ≤ 1 then base
      else
        let mid := base + size / 2
        narrow xs x n (size - size / 2) (if xs[mid]?.any (x < ·) then base else mid)

/-- `slice::binary_search`, its `Ok` result. -/
def binarySearch (xs : List α) (x : α) : Option Nat :=
  let i := narrow xs x xs.length xs.length 0
  if xs[i]? = some x then some i else none

/-- The position of `x` stays among the candidates. -/
theorem narrow_eq {xs : List α} (hsorted : xs.Pairwise (· < ·)) {k : Nat} (hlt : k < xs.length)
    (n : Nat) :
    ∀ {size base : Nat}, size ≤ n → base + size ≤ xs.length → base ≤ k → k < base + size →
      narrow xs xs[k] n size base = k := by
  have hmono : ∀ {i j : Nat} (hi : i < xs.length) (hj : j < xs.length), i < j → xs[i] < xs[j] :=
    fun hi hj => List.pairwise_iff_getElem.mp hsorted _ _ hi hj
  induction n with
  | zero => omega
  | succ n ih =>
      intro size base hsize hbound hbase hend
      rw [narrow]
      by_cases hone : size ≤ 1
      · rw [if_pos hone]
        omega
      have hmid : base + size / 2 < xs.length := by omega
      rw [if_neg hone]
      dsimp only
      rw [List.getElem?_eq_getElem hmid, Option.any_some]
      -- the half that is dropped is on the other side of `k`
      rcases Nat.lt_or_ge k (base + size / 2) with hbefore | hafter
      · rw [if_pos (decide_eq_true (hmono hlt hmid hbefore))]
        exact ih (by omega) (by omega) hbase (by omega)
      · have hle : xs[base + size / 2] ≤ xs[k] := by
          rcases Nat.eq_or_lt_of_le hafter with heq | hlt'
          · simp only [heq, le_refl]
          · exact le_of_lt (hmono hmid hlt hlt')
        rw [if_neg (by simpa using hle)]
        exact ih (by omega) (by omega) hafter (by omega)

theorem binarySearch_eq_some_iff {xs : List α} (hsorted : xs.Pairwise (· < ·)) {x : α} {i : Nat} :
    binarySearch xs x = some i ↔ xs[i]? = some x := by
  rw [binarySearch]
  constructor
  · intro h
    split at h
    · next hfound =>
        cases h
        exact hfound
    · cases h
  · intro h
    obtain ⟨hlt, rfl⟩ := List.getElem?_eq_some_iff.mp h
    have hfound := narrow_eq hsorted hlt xs.length (Nat.le_refl _) (by omega) (Nat.zero_le _)
      (by omega)
    rw [hfound, if_pos h]

theorem binarySearch_isNone_iff {xs : List α} (hsorted : xs.Pairwise (· < ·)) {x : α} :
    binarySearch xs x = none ↔ x ∉ xs := by
  rw [← not_iff_not, not_not, ← ne_eq, Option.ne_none_iff_exists', List.mem_iff_getElem?]
  exact exists_congr fun i => binarySearch_eq_some_iff hsorted

end SortedSearch

/-- Machine words in their numeric order. -/
instance linearOrderUInt64 : LinearOrder UInt64 where
  le_refl := UInt64.le_refl
  le_trans _ _ _ := UInt64.le_trans
  le_antisymm _ _ := UInt64.le_antisymm
  le_total := UInt64.le_total
  lt_iff_le_not_ge a b := by
    simp only [UInt64.lt_iff_toNat_lt, UInt64.le_iff_toNat_le]
    omega
  toDecidableLE := inferInstance
  toDecidableLT := inferInstance
  toDecidableEq := inferInstance
