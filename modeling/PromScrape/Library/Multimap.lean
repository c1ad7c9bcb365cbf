import PromScrape.Library.Keyed

set_option autoImplicit false

/-! # Values collected under keys

A map from keys to lists of values, to which values are added key by key. Each key that was ever
added to has one entry, with the values added under it; the order of the entries is left open. -/

namespace Multimap

variable {κ β : Type} [DecidableEq κ] {m : List (κ × List β)} {us : List (κ × List β)} {k : κ}

/-- The values under a key. -/
def values (k : κ) (m : List (κ × List β)) : List β :=
  ((m.find? fun e => e.1 == k).map Prod.snd).getD []

/-- Add values under a key. -/
def extend (m : List (κ × List β)) (u : κ × List β) : List (κ × List β) :=
  Keyed.upsert Prod.fst (u.1, values u.1 m ++ u.2) m

def extendAll (us m : List (κ × List β)) : List (κ × List β) := us.foldl extend m

/-- The order in which a hash map is walked: any rearrangement, which may depend on how the entries
got there. -/
structure IterationOrder (α : Type) where
  walk : List α → List α
  perm : ∀ xs, (walk xs).Perm xs

theorem extendAll_concat (u : κ × List β) :
    extendAll (us ++ [u]) m = extend (extendAll us m) u := by
  rw [extendAll, List.foldl_append, List.foldl_cons, List.foldl_nil, ← extendAll]

theorem unique_extendAll : Keyed.Unique Prod.fst (extendAll us []) := by
  induction us using List.reverseRecOn with
  | nil => exact Keyed.unique_nil
  | append_singleton us u ih =>
      rw [extendAll_concat]
      exact ih.upsert _

theorem mem_keys_extendAll : k ∈ (extendAll us []).map Prod.fst ↔ k ∈ us.map Prod.fst := by
  induction us using List.reverseRecOn with
  | nil => rfl
  | append_singleton us u ih =>
      rw [extendAll_concat, extend, Keyed.mem_map_upsert, ih, List.map_append, List.mem_append,
        or_comm]
      simp

theorem mem_values (h : Keyed.Unique Prod.fst m) {vs : List β} (hmem : (k, vs) ∈ m) :
    values k m = vs := by
  rw [values, h.find?_eq_some_iff.mpr ⟨hmem, rfl⟩]
  rfl

theorem values_of_not_mem (h : k ∉ m.map Prod.fst) : values k m = [] := by
  rw [values, Keyed.find?_eq_none_iff.mpr h]
  rfl

/-- What is under a key after one addition. -/
theorem values_extend (h : Keyed.Unique Prod.fst m) (u : κ × List β) :
    values k (extend m u) = if u.1 = k then values k m ++ u.2 else values k m := by
  have hunique : Keyed.Unique Prod.fst (extend m u) := h.upsert _
  split_ifs with hk
  · subst hk
    exact mem_values hunique (h.mem_upsert.mpr (.inl rfl))
  · by_cases hmem : k ∈ m.map Prod.fst
    · obtain ⟨⟨key, vs⟩, hentry, rfl⟩ := List.mem_map.mp hmem
      rw [mem_values h hentry]
      exact mem_values hunique (h.mem_upsert.mpr (.inr ⟨hentry, Ne.symm hk⟩))
    · rw [values_of_not_mem hmem]
      refine values_of_not_mem ?_
      rw [extend, Keyed.mem_map_upsert, not_or]
      exact ⟨Ne.symm hk, hmem⟩

/-- **Under a key are the values that were added under it.** -/
theorem mem_values_extendAll {v : β} :
    v ∈ values k (extendAll us []) ↔ ∃ u ∈ us, u.1 = k ∧ v ∈ u.2 := by
  induction us using List.reverseRecOn with
  | nil => simp [extendAll, values]
  | append_singleton us u ih =>
      rw [extendAll_concat, values_extend unique_extendAll]
      simp only [List.mem_append, List.mem_singleton, or_and_right, exists_or, exists_eq_left]
      split_ifs with hk
      · rw [List.mem_append, ih]
        simp [hk]
      · rw [ih]
        simp [hk]

end Multimap
