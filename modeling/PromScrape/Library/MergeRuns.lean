import Mathlib

set_option autoImplicit false

/-! # Merging runs of equal keys

A list of keyed values, read once from left to right, with neighbours of one key added up. Merging
after a further map of the keys is merging once, whatever the order of the keys; on ascending keys the
result has each key once, with the values of that key added in order. -/

namespace MergeRuns

variable {κ κ' α : Type} [DecidableEq κ] [DecidableEq κ'] {add : α → α → α}
  {runs l : List (κ × α)} {p : κ × α} {k : κ} {v c : α}

/-! ## The operations -/

/-- One more keyed value: added to the last run if that has its key, else a run of its own. -/
def pushRun (add : α → α → α) (runs : List (κ × α)) (p : κ × α) : List (κ × α) :=
  match runs.getLast? with
  | none => [p]
  | some last =>
      if last.1 = p.1 then runs.dropLast ++ [(last.1, add last.2 p.2)] else runs ++ [p]

/-- The runs of a list. -/
def mergeRuns (add : α → α → α) (l : List (κ × α)) : List (κ × α) := l.foldl (pushRun add) []

/-- The sum of a nonempty list, from left to right. -/
def total (add : α → α → α) : List α → Option α
  | [] => none
  | x :: rest => some (rest.foldl add x)

/-- The values of one key, in order. -/
def valuesOf (l : List (κ × α)) (k : κ) : List α := (l.filter fun p => p.1 = k).map Prod.snd

@[simp] theorem pushRun_nil : pushRun add [] p = [p] := rfl

theorem pushRun_same : pushRun add (runs ++ [(k, v)]) (k, c) = runs ++ [(k, add v c)] := by
  rw [pushRun, List.getLast?_concat]
  simp only [if_true, List.dropLast_concat]

theorem pushRun_other (h : k ≠ p.1) :
    pushRun add (runs ++ [(k, v)]) p = runs ++ [(k, v)] ++ [p] := by
  rw [pushRun, List.getLast?_concat]
  exact if_neg h

omit [DecidableEq κ] in
theorem eq_nil_of_getLast?_key (h : runs.getLast?.map Prod.fst = none) : runs = [] := by
  rwa [Option.map_eq_none_iff, List.getLast?_eq_none_iff] at h

omit [DecidableEq κ] in
theorem eq_concat_of_getLast?_key (h : runs.getLast?.map Prod.fst = some k) :
    ∃ init v, runs = init ++ [(k, v)] := by
  obtain ⟨⟨_, v⟩, hlast, rfl⟩ := Option.map_eq_some_iff.mp h
  obtain ⟨init, rfl⟩ := List.getLast?_eq_some_iff.mp hlast
  exact ⟨init, v, rfl⟩

@[simp] theorem mergeRuns_nil : mergeRuns add ([] : List (κ × α)) = [] := rfl

theorem mergeRuns_concat : mergeRuns add (l ++ [p]) = pushRun add (mergeRuns add l) p :=
  List.foldl_concat ..

theorem total_concat {xs : List α} :
    total add (xs ++ [c]) = some (match total add xs with | none => c | some v => add v c) := by
  cases xs with
  | nil => rfl
  | cons x rest => rw [List.cons_append, total, List.foldl_concat, total]

theorem valuesOf_concat_self : valuesOf (l ++ [(k, c)]) k = valuesOf l k ++ [c] := by
  simp [valuesOf, List.filter_append]

theorem valuesOf_concat_other (h : p.1 ≠ k) : valuesOf (l ++ [p]) k = valuesOf l k := by
  simp [valuesOf, List.filter_append, h]

theorem valuesOf_eq_nil (h : k ∉ l.map Prod.fst) : valuesOf l k = [] := by
  rw [valuesOf, List.map_eq_nil_iff, List.filter_eq_nil_iff]
  intro p hp hkey
  exact h (List.mem_map.mpr ⟨p, hp, of_decide_eq_true hkey⟩)

/-! ## Keys -/

theorem length_le_pushRun : runs.length ≤ (pushRun add runs p).length := by
  induction runs using List.reverseRecOn with
  | nil => exact Nat.zero_le _
  | append_singleton init last _ =>
      obtain ⟨k, v⟩ := last
      by_cases h : k = p.1
      · subst h
        rw [show p = (p.1, p.2) from rfl, pushRun_same]
        simp
      · rw [pushRun_other h]
        simp

theorem length_le_foldl_pushRun : runs.length ≤ (l.foldl (pushRun add) runs).length := by
  induction l generalizing runs with
  | nil => exact Nat.le_refl _
  | cons p rest ih => exact le_trans length_le_pushRun ih

theorem length_pushRun_le : (pushRun add runs p).length ≤ runs.length + 1 := by
  induction runs using List.reverseRecOn with
  | nil => exact Nat.le_refl _
  | append_singleton init last _ =>
      obtain ⟨k, v⟩ := last
      by_cases h : k = p.1
      · subst h
        rw [show p = (p.1, p.2) from rfl, pushRun_same]
        simp
      · rw [pushRun_other h]
        simp

theorem length_mergeRuns_le : (mergeRuns add l).length ≤ l.length := by
  induction l using List.reverseRecOn with
  | nil => exact Nat.le_refl _
  | append_singleton init last ih =>
      rw [mergeRuns_concat, List.length_append, List.length_singleton]
      exact le_trans length_pushRun_le (Nat.succ_le_succ ih)

theorem getLast?_pushRun_key : (pushRun add runs p).getLast?.map Prod.fst = some p.1 := by
  induction runs using List.reverseRecOn with
  | nil => rfl
  | append_singleton init last _ =>
      obtain ⟨k, v⟩ := last
      by_cases h : k = p.1
      · subst h
        rw [show p = (p.1, p.2) from rfl, pushRun_same, List.getLast?_concat]
        rfl
      · rw [pushRun_other h, List.getLast?_concat]
        rfl

/-- The last run is that of the last key. -/
theorem getLast?_mergeRuns_key :
    (mergeRuns add l).getLast?.map Prod.fst = l.getLast?.map Prod.fst := by
  induction l using List.reverseRecOn with
  | nil => rfl
  | append_singleton init last _ =>
      rw [mergeRuns_concat, getLast?_pushRun_key, List.getLast?_concat]
      rfl

theorem mem_keys_pushRun :
    k ∈ (pushRun add runs p).map Prod.fst ↔ k ∈ runs.map Prod.fst ∨ k = p.1 := by
  induction runs using List.reverseRecOn with
  | nil => simp
  | append_singleton init last _ =>
      obtain ⟨k', v⟩ := last
      by_cases h : k' = p.1
      · subst h
        rw [show p = (p.1, p.2) from rfl, pushRun_same]
        simp
      · rw [pushRun_other h]
        simp [or_assoc]

theorem mem_keys_mergeRuns : k ∈ (mergeRuns add l).map Prod.fst ↔ k ∈ l.map Prod.fst := by
  induction l using List.reverseRecOn with
  | nil => rfl
  | append_singleton init last ih => rw [mergeRuns_concat, mem_keys_pushRun, ih]; simp [eq_comm]

/-! ## Composition -/

/-- Two values of one key in a row are one value. -/
theorem pushRun_pushRun (hassoc : ∀ a b c, add (add a b) c = add a (add b c)) :
    pushRun add (pushRun add runs (k, v)) (k, c) = pushRun add runs (k, add v c) := by
  induction runs using List.reverseRecOn with
  | nil =>
      show pushRun add ([] ++ [(k, v)]) (k, c) = [] ++ [(k, add v c)]
      exact pushRun_same
  | append_singleton init last _ =>
      obtain ⟨k', v'⟩ := last
      by_cases h : k' = k
      · subst h
        rw [pushRun_same, pushRun_same, pushRun_same, hassoc]
      · rw [pushRun_other h, pushRun_same, pushRun_other h]

/-- **Merging, mapping the keys and merging again is merging once.** -/
theorem mergeRuns_map (hassoc : ∀ a b c, add (add a b) c = add a (add b c)) (g : κ → κ') :
    mergeRuns add ((mergeRuns add l).map fun p => (g p.1, p.2)) =
      mergeRuns add (l.map fun p => (g p.1, p.2)) := by
  induction l using List.reverseRecOn with
  | nil => rfl
  | append_singleton l p ih =>
      rw [mergeRuns_concat, List.map_append, List.map_singleton, mergeRuns_concat, ← ih]
      generalize mergeRuns add l = runs
      induction runs using List.reverseRecOn with
      | nil => rfl
      | append_singleton init last _ =>
          obtain ⟨k, v⟩ := last
          by_cases h : k = p.1
          · subst h
            rw [show p = (p.1, p.2) from rfl, pushRun_same]
            simp only [List.map_append, List.map_singleton, mergeRuns_concat]
            exact (pushRun_pushRun hassoc).symm
          · rw [pushRun_other h, List.map_append, List.map_singleton, mergeRuns_concat]

/-! ## Values -/

/-- A map of the values that respects the sums. -/
theorem mergeRuns_map_values {β : Type} {add' : β → β → β} {f : α → β}
    (hf : ∀ a b, f (add a b) = add' (f a) (f b)) :
    mergeRuns add' (l.map fun p => (p.1, f p.2)) =
      (mergeRuns add l).map fun p => (p.1, f p.2) := by
  induction l using List.reverseRecOn with
  | nil => rfl
  | append_singleton l p ih =>
      rw [List.map_append, List.map_singleton, mergeRuns_concat, mergeRuns_concat, ih]
      induction mergeRuns add l using List.reverseRecOn with
      | nil => rfl
      | append_singleton init last _ =>
          obtain ⟨k, v⟩ := last
          rw [List.map_append, List.map_singleton]
          show pushRun add' (_ ++ [(k, f v)]) (p.1, f p.2) = _
          by_cases h : k = p.1
          · subst h
            rw [pushRun_same, show p = (p.1, p.2) from rfl, pushRun_same, List.map_append,
              List.map_singleton, hf]
          · have hother : k ≠ (p.1, f p.2).1 := h
            rw [pushRun_other h, pushRun_other hother, List.map_append, List.map_append,
              List.map_singleton, List.map_singleton]

theorem valuesOf_map_values {β : Type} (f : α → β) :
    valuesOf (l.map fun p => (p.1, f p.2)) k = (valuesOf l k).map f := by
  rw [valuesOf, valuesOf, List.filter_map, List.map_map, List.map_map]
  rfl

/-- Merging keeps the sum of all values. -/
theorem sum_mergeRuns {l : List (κ × ℕ)} :
    ((mergeRuns (· + ·) l).map Prod.snd).sum = (l.map Prod.snd).sum := by
  induction l using List.reverseRecOn with
  | nil => rfl
  | append_singleton l p ih =>
      rw [mergeRuns_concat, List.map_append, List.sum_append, ← ih]
      induction mergeRuns (· + ·) l using List.reverseRecOn with
      | nil => simp
      | append_singleton init last _ =>
          obtain ⟨k, v⟩ := last
          by_cases h : k = p.1
          · subst h
            rw [show p = (p.1, p.2) from rfl, pushRun_same]
            simp [Nat.add_assoc]
          · rw [pushRun_other h]
            simp [Nat.add_assoc]

theorem sum_of_total {xs : List ℕ} {s : ℕ} (h : total (· + ·) xs = some s) : xs.sum = s := by
  induction xs using List.reverseRecOn generalizing s with
  | nil => cases h
  | append_singleton init last ih =>
      rw [total_concat, Option.some.injEq] at h
      rw [List.sum_append, List.sum_singleton, ← h]
      cases htotal : total (· + ·) init with
      | none =>
          cases init with
          | nil => exact Nat.zero_add last
          | cons x rest => cases htotal
      | some v => rw [ih htotal]

/-- A run never gets smaller. -/
theorem exists_le_mergeRuns_append [Preorder α] (hle : ∀ a b, a ≤ add a b) (l' : List (κ × α))
    (hv : v ∈ (mergeRuns add l).map Prod.snd) :
    ∃ v' ∈ (mergeRuns add (l ++ l')).map Prod.snd, v ≤ v' := by
  induction l' using List.reverseRecOn with
  | nil => exact ⟨v, by rwa [List.append_nil], le_refl v⟩
  | append_singleton l' p ih =>
      obtain ⟨v₁, hv₁, hle₁⟩ := ih
      rw [← List.append_assoc, mergeRuns_concat]
      generalize mergeRuns add (l ++ l') = runs at hv₁
      induction runs using List.reverseRecOn with
      | nil => cases hv₁
      | append_singleton init last _ =>
          obtain ⟨k, v₂⟩ := last
          rw [List.map_append, List.map_singleton, List.mem_append, List.mem_singleton] at hv₁
          by_cases h : k = p.1
          · subst h
            rw [show p = (p.1, p.2) from rfl, pushRun_same, List.map_append]
            rcases hv₁ with hinit | rfl
            · exact ⟨v₁, List.mem_append_left _ hinit, hle₁⟩
            · exact ⟨_, List.mem_append_right _ (List.mem_singleton_self _),
                le_trans hle₁ (hle _ _)⟩
          · rw [pushRun_other h, List.map_append, List.map_append]
            refine ⟨v₁, List.mem_append_left _ (List.mem_append.mpr ?_), hle₁⟩
            rcases hv₁ with hinit | rfl
            · exact .inl hinit
            · exact .inr (List.mem_singleton_self _)

/-! ## Ascending keys -/

section Ascending

variable [LinearOrder κ]

theorem keys_pushRun_pairwise (h : (runs.map Prod.fst).Pairwise (· < ·))
    (hle : ∀ k ∈ runs.map Prod.fst, k ≤ p.1) :
    ((pushRun add runs p).map Prod.fst).Pairwise (· < ·) := by
  induction runs using List.reverseRecOn with
  | nil => simp
  | append_singleton init last _ =>
      obtain ⟨k, v⟩ := last
      by_cases hk : k = p.1
      · subst hk
        rw [show p = (p.1, p.2) from rfl, pushRun_same]
        simpa using h
      · rw [pushRun_other hk, List.map_append, List.map_singleton, List.pairwise_append]
        refine ⟨h, List.pairwise_singleton _ _, ?_⟩
        intro a ha b hb
        rw [List.mem_singleton] at hb
        subst hb
        rw [List.map_append, List.map_singleton] at h ha hle
        have hlast : k < p.1 := lt_of_le_of_ne (hle k (by simp)) hk
        rcases List.mem_append.mp ha with hinit | hself
        · exact lt_trans ((List.pairwise_append.mp h).2.2 a hinit k (by simp)) hlast
        · rw [List.mem_singleton.mp hself]
          exact hlast

theorem mergeRuns_pairwise (h : (l.map Prod.fst).Pairwise (· ≤ ·)) :
    ((mergeRuns add l).map Prod.fst).Pairwise (· < ·) := by
  induction l using List.reverseRecOn with
  | nil => exact List.Pairwise.nil
  | append_singleton l p ih =>
      rw [List.map_append, List.map_singleton, List.pairwise_append] at h
      rw [mergeRuns_concat]
      refine keys_pushRun_pairwise (ih h.1) ?_
      intro k hk
      exact h.2.2 k (mem_keys_mergeRuns.mp hk) p.1 (List.mem_singleton_self _)

/-- A list without neighbours of one key is its own runs. -/
theorem mergeRuns_of_pairwise (h : (l.map Prod.fst).Pairwise (· < ·)) : mergeRuns add l = l := by
  induction l using List.reverseRecOn with
  | nil => rfl
  | append_singleton l p ih =>
      rw [List.map_append, List.map_singleton, List.pairwise_append] at h
      rw [mergeRuns_concat, ih h.1]
      rcases List.eq_nil_or_concat l with rfl | ⟨init, ⟨k, v⟩, rfl⟩
      · rfl
      · rw [List.concat_eq_append] at h ⊢
        have hlt := h.2.2 k (by simp) p.1 (List.mem_singleton_self _)
        exact pushRun_other (ne_of_lt hlt)

/-- What a run is after one more keyed value: that of another key, the grown one, or a new one. -/
theorem mem_pushRun (hsorted : (runs.map Prod.fst).Pairwise (· < ·))
    (hmax : ∀ k ∈ runs.map Prod.fst, k ≤ p.1) (hmem : (k, v) ∈ pushRun add runs p) :
    (k ≠ p.1 ∧ (k, v) ∈ runs) ∨ (k = p.1 ∧ ∃ v', (k, v') ∈ runs ∧ v = add v' p.2) ∨
      (k = p.1 ∧ k ∉ runs.map Prod.fst ∧ v = p.2) := by
  induction runs using List.reverseRecOn with
  | nil =>
      rw [pushRun_nil, List.mem_singleton] at hmem
      exact .inr (.inr ⟨congrArg Prod.fst hmem, by simp, congrArg Prod.snd hmem⟩)
  | append_singleton init last _ =>
      obtain ⟨k', v'⟩ := last
      rw [List.map_append, List.map_singleton] at hsorted hmax
      have hbelow := (List.pairwise_append.mp hsorted).2.2
      have hlast : k' ≤ p.1 := hmax k' (by simp)
      by_cases hk' : k' = p.1
      · subst hk'
        rw [show p = (p.1, p.2) from rfl, pushRun_same, List.mem_append, List.mem_singleton] at hmem
        rcases hmem with hinit | heq
        · have hlt := hbelow k (List.mem_map_of_mem (f := Prod.fst) hinit) p.1 (by simp)
          exact .inl ⟨ne_of_lt hlt, List.mem_append_left _ hinit⟩
        · cases heq
          exact .inr (.inl ⟨rfl, v', by simp, rfl⟩)
      · rw [pushRun_other hk', List.mem_append, List.mem_singleton] at hmem
        have hlt : ∀ j ∈ (init ++ [(k', v')]).map Prod.fst, j < p.1 := by
          intro j hj
          rw [List.map_append, List.map_singleton, List.mem_append] at hj
          rcases hj with hinit | hself
          · exact lt_of_lt_of_le (hbelow j hinit k' (by simp)) hlast
          · rw [List.mem_singleton.mp hself]
            exact lt_of_le_of_ne hlast hk'
        rcases hmem with hrun | heq
        · exact .inl ⟨ne_of_lt (hlt k (List.mem_map_of_mem (f := Prod.fst) hrun)), hrun⟩
        · subst heq
          exact .inr (.inr ⟨rfl, fun h => lt_irrefl _ (hlt _ h), rfl⟩)

/-- **Each run is the sum of the values of its key**, in order. -/
theorem total_of_mem_mergeRuns (h : (l.map Prod.fst).Pairwise (· ≤ ·))
    (hmem : (k, v) ∈ mergeRuns add l) : total add (valuesOf l k) = some v := by
  induction l using List.reverseRecOn generalizing k v with
  | nil => cases hmem
  | append_singleton l p ih =>
      rw [List.map_append, List.map_singleton, List.pairwise_append] at h
      rw [mergeRuns_concat] at hmem
      have hmax : ∀ k ∈ (mergeRuns add l).map Prod.fst, k ≤ p.1 := fun k hk =>
        h.2.2 k (mem_keys_mergeRuns.mp hk) p.1 (List.mem_singleton_self _)
      rcases mem_pushRun (mergeRuns_pairwise h.1) hmax hmem with
        ⟨hne, hrun⟩ | ⟨rfl, v', hrun, rfl⟩ | ⟨rfl, hfresh, rfl⟩
      · rw [valuesOf_concat_other (Ne.symm hne)]
        exact ih h.1 hrun
      · rw [show p = (p.1, p.2) from rfl, valuesOf_concat_self, total_concat, ih h.1 hrun]
      · rw [mem_keys_mergeRuns] at hfresh
        rw [show p = (p.1, p.2) from rfl, valuesOf_concat_self, valuesOf_eq_nil hfresh]
        rfl

end Ascending

end MergeRuns
