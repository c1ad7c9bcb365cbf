import Mathlib

set_option autoImplicit false

/-! # Lists as keyed sets

A list whose elements carry keys, none of them twice, is a finite map that remembers an order. The
operations on such lists (overwrite or append, append if absent, filter) keep the keys unique and are
determined by their members, so on lists with unique keys they commute with permutations; sorting by
key then forgets the order altogether. -/

namespace Keyed

variable {α κ : Type} {key : α → κ} {xs ys : List α} {a b : α} {k : κ}

/-- No key occurs twice. -/
def Unique (key : α → κ) (xs : List α) : Prop := (xs.map key).Nodup

/-! ## Unique keys -/

theorem unique_nil : Unique key [] := List.nodup_nil

theorem unique_cons : Unique key (a :: xs) ↔ key a ∉ xs.map key ∧ Unique key xs := List.nodup_cons

theorem unique_append :
    Unique key (xs ++ ys) ↔ Unique key xs ∧ Unique key ys ∧ ∀ k ∈ xs.map key, k ∉ ys.map key := by
  rw [Unique, List.map_append, List.nodup_append']
  rfl

theorem Unique.nodup (h : Unique key xs) : xs.Nodup := List.Nodup.of_map key h

theorem Unique.eq_of_key (h : Unique key xs) (ha : a ∈ xs) (hb : b ∈ xs) (hkey : key a = key b) :
    a = b :=
  List.inj_on_of_nodup_map h ha hb hkey

theorem Unique.of_perm (h : Unique key xs) (hperm : xs.Perm ys) : Unique key ys :=
  (hperm.map key).nodup_iff.mp h

theorem Unique.filter (h : Unique key xs) (p : α → Bool) : Unique key (xs.filter p) :=
  (List.filter_sublist.map key).nodup h

theorem Unique.perm_iff (h : Unique key xs) (h' : Unique key ys) :
    xs.Perm ys ↔ ∀ a, a ∈ xs ↔ a ∈ ys := List.perm_ext_iff_of_nodup h.nodup h'.nodup

/-- One element and those with other keys. -/
theorem Unique.perm_cons_filter [DecidableEq κ] (h : Unique key xs) (ha : a ∈ xs) :
    xs.Perm (a :: xs.filter fun b => key b ≠ key a) := by
  have hrest : Unique key (a :: xs.filter fun b => key b ≠ key a) := by
    refine unique_cons.mpr ⟨?_, h.filter _⟩
    intro hmem
    obtain ⟨b, hb, hkey⟩ := List.mem_map.mp hmem
    exact (of_decide_eq_true (List.mem_filter.mp hb).2) hkey
  refine (h.perm_iff hrest).mpr fun b => ?_
  rw [List.mem_cons, List.mem_filter, decide_eq_true_iff]
  constructor
  · intro hb
    by_cases hkey : key b = key a
    · exact .inl (h.eq_of_key hb ha hkey)
    · exact .inr ⟨hb, hkey⟩
  · rintro (rfl | hb)
    · exact ha
    · exact hb.1

/-! ## Lookup -/

section Lookup

variable [DecidableEq κ]

theorem any_key_iff : xs.any (fun a => key a == k) = true ↔ k ∈ xs.map key := by
  simp only [List.any_eq_true, beq_iff_eq, List.mem_map]

theorem find?_eq_none_iff : xs.find? (fun a => key a == k) = none ↔ k ∉ xs.map key := by
  simp only [List.find?_eq_none, beq_iff_eq, List.mem_map, not_exists, not_and]

theorem mem_of_find? (h : xs.find? (fun a => key a == k) = some a) : a ∈ xs ∧ key a = k :=
  ⟨List.mem_of_find?_eq_some h, by simpa using List.find?_some h⟩

theorem Unique.find?_eq_some_iff (h : Unique key xs) :
    xs.find? (fun a => key a == k) = some a ↔ a ∈ xs ∧ key a = k := by
  constructor
  · exact mem_of_find?
  · rintro ⟨ha, hk⟩
    cases hfind : xs.find? (fun a => key a == k) with
    | none => exact absurd (List.mem_map.mpr ⟨a, ha, hk⟩) (find?_eq_none_iff.mp hfind)
    | some b =>
        obtain ⟨hb, hkb⟩ := mem_of_find? hfind
        rw [h.eq_of_key ha hb (hk.trans hkb.symm)]

/-- What a lookup finds does not depend on the order. -/
theorem Unique.find?_perm (h : Unique key xs) (hperm : xs.Perm ys) :
    xs.find? (fun a => key a == k) = ys.find? (fun a => key a == k) := by
  ext a
  rw [h.find?_eq_some_iff, (h.of_perm hperm).find?_eq_some_iff, hperm.mem_iff]

end Lookup

/-! ## Overwrite or append -/

section Upsert

variable [DecidableEq κ]

/-- Put `a` in the place of the first element with its key, at the end if there is none. -/
def upsert (key : α → κ) (a : α) : List α → List α
  | [] => [a]
  | b :: rest => if key b == key a then a :: rest else b :: upsert key a rest

theorem upsert_of_not_mem (h : key a ∉ xs.map key) : upsert key a xs = xs ++ [a] := by
  induction xs with
  | nil => rfl
  | cons b rest ih =>
      rw [List.map_cons, List.mem_cons, not_or] at h
      have hb : ¬ (key b == key a) = true := by simpa using Ne.symm h.1
      rw [upsert, if_neg hb, ih h.2, List.cons_append]

/-- Overwriting leaves the keys as they are. -/
theorem map_upsert_of_mem (h : key a ∈ xs.map key) : (upsert key a xs).map key = xs.map key := by
  induction xs with
  | nil => cases h
  | cons b rest ih =>
      by_cases hb : key b = key a
      · rw [upsert, if_pos (beq_iff_eq.mpr hb), List.map_cons, List.map_cons, hb]
      · have hrest : key a ∈ rest.map key := by
          rcases List.mem_cons.mp h with heq | hmem
          · exact absurd heq.symm hb
          · exact hmem
        rw [upsert, if_neg (by simpa using hb), List.map_cons, List.map_cons, ih hrest]

theorem mem_map_upsert : k ∈ (upsert key a xs).map key ↔ k = key a ∨ k ∈ xs.map key := by
  by_cases h : key a ∈ xs.map key
  · rw [map_upsert_of_mem h]
    constructor
    · exact Or.inr
    · rintro (rfl | hk)
      · exact h
      · exact hk
  · rw [upsert_of_not_mem h, List.map_append, List.mem_append, or_comm]
    simp

theorem Unique.upsert (h : Unique key xs) (a : α) : Unique key (Keyed.upsert key a xs) := by
  by_cases ha : key a ∈ xs.map key
  · rw [Unique, map_upsert_of_mem ha]
    exact h
  · rw [upsert_of_not_mem ha, unique_append]
    refine ⟨h, List.nodup_singleton _, ?_⟩
    intro k hk hka
    rw [List.map_singleton, List.mem_singleton] at hka
    exact ha (hka ▸ hk)

/-- On unique keys an upsert removes exactly what `a` replaces. -/
theorem Unique.mem_upsert (h : Unique key xs) :
    b ∈ Keyed.upsert key a xs ↔ b = a ∨ b ∈ xs ∧ key b ≠ key a := by
  induction xs with
  | nil => simp [Keyed.upsert]
  | cons c rest ih =>
      obtain ⟨hc, hrest⟩ := unique_cons.mp h
      by_cases hca : key c = key a
      · have hfresh : ∀ b ∈ rest, key b ≠ key a := fun b hb hba =>
          hc (List.mem_map.mpr ⟨b, hb, hba.trans hca.symm⟩)
        rw [Keyed.upsert, if_pos (beq_iff_eq.mpr hca), List.mem_cons, List.mem_cons]
        constructor
        · rintro (rfl | hb)
          · exact .inl rfl
          · exact .inr ⟨.inr hb, hfresh b hb⟩
        · rintro (rfl | ⟨rfl | hb, hne⟩)
          · exact .inl rfl
          · exact absurd hca hne
          · exact .inr hb
      · rw [Keyed.upsert, if_neg (by simpa using hca), List.mem_cons, List.mem_cons, ih hrest]
        constructor
        · rintro (rfl | rfl | ⟨hb, hne⟩)
          · exact .inr ⟨.inl rfl, hca⟩
          · exact .inl rfl
          · exact .inr ⟨.inr hb, hne⟩
        · rintro (rfl | ⟨rfl | hb, hne⟩)
          · exact .inr (.inl rfl)
          · exact .inl rfl
          · exact .inr (.inr ⟨hb, hne⟩)

/-- An upsert commutes with permutations. -/
theorem Unique.upsert_perm (h : Unique key xs) (hperm : xs.Perm ys) (a : α) :
    (Keyed.upsert key a xs).Perm (Keyed.upsert key a ys) := by
  have h' := h.of_perm hperm
  rw [(h.upsert a).perm_iff (h'.upsert a)]
  intro b
  rw [h.mem_upsert, h'.mem_upsert, hperm.mem_iff]

end Upsert

/-! ## Many upserts -/

section UpsertAll

variable [DecidableEq κ]

/-- Upsert all of `us`, first to last. -/
def upsertAll (key : α → κ) (us xs : List α) : List α :=
  us.foldl (fun xs u => upsert key u xs) xs

/-- The last of `us` with the key `k`. -/
def lastWith (key : α → κ) (us : List α) (k : κ) : Option α := us.reverse.find? (fun u => key u == k)

theorem lastWith_nil : lastWith key [] k = none := rfl

theorem lastWith_cons (u : α) (us : List α) :
    lastWith key (u :: us) k = (lastWith key us k).or (if key u == k then some u else none) := by
  rw [lastWith, List.reverse_cons, List.find?_append, ← lastWith]
  congr 1
  cases h : key u == k <;> simp [h]

theorem lastWith_concat (us : List α) (u : α) :
    lastWith key (us ++ [u]) k = if key u == k then some u else lastWith key us k := by
  rw [lastWith, List.reverse_append, List.reverse_singleton, List.singleton_append, List.find?_cons,
    ← lastWith]
  cases key u == k <;> rfl

theorem lastWith_eq_none_iff {us : List α} : lastWith key us k = none ↔ k ∉ us.map key := by
  rw [lastWith, find?_eq_none_iff, List.map_reverse, List.mem_reverse]

theorem mem_of_lastWith {us : List α} (h : lastWith key us k = some a) : a ∈ us ∧ key a = k := by
  obtain ⟨ha, hk⟩ := mem_of_find? h
  exact ⟨List.mem_reverse.mp ha, hk⟩

/-- Where all of `us` with one key are one element, the order of `us` does not matter. -/
theorem lastWith_perm {us vs : List α} (hus : ∀ u ∈ us, ∀ v ∈ us, key u = key v → u = v)
    (hperm : us.Perm vs) : lastWith key us k = lastWith key vs k := by
  cases hu : lastWith key us k with
  | none =>
      rw [lastWith_eq_none_iff, (hperm.map key).mem_iff] at hu
      exact (lastWith_eq_none_iff.mpr hu).symm
  | some u =>
      obtain ⟨humem, hukey⟩ := mem_of_lastWith hu
      cases hv : lastWith key vs k with
      | none =>
          rw [lastWith_eq_none_iff, ← (hperm.map key).mem_iff] at hv
          exact absurd (List.mem_map.mpr ⟨u, humem, hukey⟩) hv
      | some v =>
          obtain ⟨hvmem, hvkey⟩ := mem_of_lastWith hv
          rw [hus u humem v (hperm.mem_iff.mpr hvmem) (hukey.trans hvkey.symm)]

theorem Unique.upsertAll (h : Unique key xs) (us : List α) :
    Unique key (Keyed.upsertAll key us xs) := by
  induction us generalizing xs with
  | nil => exact h
  | cons u rest ih => exact ih (h.upsert u)

theorem mem_map_upsertAll {us : List α} :
    k ∈ (upsertAll key us xs).map key ↔ k ∈ us.map key ∨ k ∈ xs.map key := by
  induction us generalizing xs with
  | nil => simp [upsertAll]
  | cons u rest ih =>
      have hstep : k ∈ (upsertAll key rest (upsert key u xs)).map key ↔
          k ∈ rest.map key ∨ k ∈ (upsert key u xs).map key := ih
      rw [upsertAll] at hstep
      rw [upsertAll, List.foldl_cons, hstep, mem_map_upsert, List.map_cons, List.mem_cons]
      tauto

/-- After many upserts: what was put last under a key, and what nothing replaced. -/
theorem Unique.mem_upsertAll (h : Unique key xs) {us : List α} :
    b ∈ Keyed.upsertAll key us xs ↔
      lastWith key us (key b) = some b ∨ b ∈ xs ∧ key b ∉ us.map key := by
  induction us generalizing xs with
  | nil => simp [Keyed.upsertAll, lastWith_nil]
  | cons u rest ih =>
      have hstep := ih (h.upsert u)
      rw [Keyed.upsertAll] at hstep
      rw [Keyed.upsertAll, List.foldl_cons, hstep, h.mem_upsert, lastWith_cons, List.map_cons,
        List.mem_cons, not_or]
      cases hlast : lastWith key rest (key b) with
      | some v =>
          have hrest : key b ∈ rest.map key := by
            obtain ⟨hv, hkey⟩ := mem_of_lastWith hlast
            exact List.mem_map.mpr ⟨v, hv, hkey⟩
          rw [Option.some_or]
          simp only [hrest, not_true, and_false, or_false]
      | none =>
          have hrest := lastWith_eq_none_iff.mp hlast
          rw [Option.none_or]
          by_cases hu : key u = key b
          · rw [if_pos (beq_iff_eq.mpr hu)]
            simp [hu, hrest, eq_comm]
          · have hub : b ≠ u := fun hsame => hu (congrArg key hsame.symm)
            rw [if_neg (by simpa using hu)]
            simp only [hub, hrest, Ne.symm hu, not_false_iff, and_true, false_or, reduceCtorEq, ne_eq]

/-- Starting from nothing, every element survives exactly when equal keys mean equal elements. -/
theorem forall_mem_upsertAll_iff {us : List α} :
    (∀ u ∈ us, u ∈ Keyed.upsertAll key us []) ↔ ∀ u ∈ us, ∀ v ∈ us, key u = key v → u = v := by
  have hmem : ∀ u, u ∈ Keyed.upsertAll key us [] ↔ lastWith key us (key u) = some u := by
    intro u
    rw [Unique.mem_upsertAll unique_nil]
    simp
  constructor
  · intro h u hu v hv hkey
    have hlast := (hmem u).mp (h u hu)
    rw [hkey, (hmem v).mp (h v hv)] at hlast
    exact (Option.some.inj hlast).symm
  · intro h u hu
    rw [hmem]
    cases hlast : lastWith key us (key u) with
    | none => exact absurd (List.mem_map.mpr ⟨u, hu, rfl⟩) (lastWith_eq_none_iff.mp hlast)
    | some v =>
        obtain ⟨hv, hkey⟩ := mem_of_lastWith hlast
        rw [h v hv u hu hkey]

/-- **Upserts give the same set in both orders exactly when the last under each key is the same.** -/
theorem Unique.upsertAll_perm_iff (h : Unique key xs) (hperm : xs.Perm ys) {us vs : List α}
    (huv : us.Perm vs) :
    (Keyed.upsertAll key us xs).Perm (Keyed.upsertAll key vs ys) ↔
      ∀ k, lastWith key us k = lastWith key vs k := by
  have h' := h.of_perm hperm
  have hkeys : ∀ k, k ∈ us.map key ↔ k ∈ vs.map key := fun k => (huv.map key).mem_iff
  rw [(h.upsertAll us).perm_iff (h'.upsertAll vs)]
  constructor
  · intro hmem k
    cases hlast : lastWith key us k with
    | none =>
        rw [lastWith_eq_none_iff, hkeys] at hlast
        exact (lastWith_eq_none_iff.mpr hlast).symm
    | some u =>
        obtain ⟨hu, rfl⟩ := mem_of_lastWith hlast
        rcases h'.mem_upsertAll.mp ((hmem u).mp (h.mem_upsertAll.mpr (.inl hlast))) with
          hlast' | ⟨-, hnot⟩
        · exact hlast'.symm
        · exact absurd ((hkeys _).mp (List.mem_map_of_mem hu)) hnot
  · intro hlast b
    rw [h.mem_upsertAll, h'.mem_upsertAll, hlast, hperm.mem_iff, hkeys]

end UpsertAll

/-! ## Append if absent -/

section Insert

variable [DecidableEq κ]

/-- Append `a` unless its key is taken. -/
def insertIfAbsent (key : α → κ) (a : α) (xs : List α) : List α :=
  if xs.any (fun b => key b == key a) then xs else xs ++ [a]

theorem insertIfAbsent_of_mem (h : key a ∈ xs.map key) : insertIfAbsent key a xs = xs :=
  if_pos (any_key_iff.mpr h)

theorem insertIfAbsent_of_not_mem (h : key a ∉ xs.map key) :
    insertIfAbsent key a xs = xs ++ [a] := if_neg (mt any_key_iff.mp h)

theorem mem_map_insertIfAbsent :
    k ∈ (insertIfAbsent key a xs).map key ↔ k = key a ∨ k ∈ xs.map key := by
  by_cases h : key a ∈ xs.map key
  · rw [insertIfAbsent_of_mem h]
    constructor
    · exact Or.inr
    · rintro (rfl | hk)
      · exact h
      · exact hk
  · rw [insertIfAbsent_of_not_mem h, List.map_append, List.mem_append, or_comm]
    simp

theorem mem_insertIfAbsent :
    b ∈ insertIfAbsent key a xs ↔ b ∈ xs ∨ b = a ∧ key a ∉ xs.map key := by
  by_cases h : key a ∈ xs.map key
  · rw [insertIfAbsent_of_mem h]
    simp [h]
  · rw [insertIfAbsent_of_not_mem h, List.mem_append, List.mem_singleton]
    simp [h]

theorem Unique.insertIfAbsent (h : Unique key xs) (a : α) :
    Unique key (Keyed.insertIfAbsent key a xs) := by
  by_cases ha : key a ∈ xs.map key
  · rw [insertIfAbsent_of_mem ha]
    exact h
  · rw [insertIfAbsent_of_not_mem ha, ← upsert_of_not_mem ha]
    exact h.upsert a

theorem Unique.insertIfAbsent_perm (h : Unique key xs) (hperm : xs.Perm ys) (a : α) :
    (Keyed.insertIfAbsent key a xs).Perm (Keyed.insertIfAbsent key a ys) := by
  have h' := h.of_perm hperm
  rw [(h.insertIfAbsent a).perm_iff (h'.insertIfAbsent a)]
  intro b
  rw [mem_insertIfAbsent, mem_insertIfAbsent, hperm.mem_iff, (hperm.map key).mem_iff]

end Insert

/-! ## Sorting by key -/

section SortByKey

variable [LinearOrder κ]

/-- **A list sorted by key is strictly sorted exactly when its keys are unique.** -/
theorem pairwise_lt_insertionSort_iff :
    (xs.insertionSort (fun a b => key a ≤ key b)).Pairwise (fun a b => key a < key b) ↔
      Unique key xs := by
  have hperm := List.perm_insertionSort (fun a b => key a ≤ key b) xs
  have hsorted : (xs.insertionSort (fun a b => key a ≤ key b)).Pairwise
      (fun a b => key a ≤ key b) := List.pairwise_insertionSort _ _
  constructor
  · intro h
    have hnodup : Unique key (xs.insertionSort (fun a b => key a ≤ key b)) :=
      List.pairwise_map.mpr (h.imp (fun hlt => ne_of_lt hlt))
    exact hnodup.of_perm hperm
  · intro h
    have hne : (xs.insertionSort (fun a b => key a ≤ key b)).Pairwise
        (fun a b => key a ≠ key b) := List.pairwise_map.mp (h.of_perm hperm.symm)
    exact hsorted.imp₂ (fun a b hle hne => lt_of_le_of_ne hle hne) hne

/-- **Sorting unique keys forgets the order.** -/
theorem Unique.insertionSort_perm (h : Unique key xs) (hperm : xs.Perm ys) :
    xs.insertionSort (fun a b => key a ≤ key b) = ys.insertionSort (fun a b => key a ≤ key b) := by
  have hstrict := pairwise_lt_insertionSort_iff.mpr h
  have hstrict' := pairwise_lt_insertionSort_iff.mpr (h.of_perm hperm)
  have hsorts := (List.perm_insertionSort (fun a b => key a ≤ key b) xs).trans
    (hperm.trans (List.perm_insertionSort (fun a b => key a ≤ key b) ys).symm)
  refine hsorts.eq_of_pairwise (fun a b _ _ hab hba => ?_) hstrict hstrict'
  exact absurd (lt_trans hab hba) (lt_irrefl _)

end SortByKey

end Keyed
