import Mathlib

set_option autoImplicit false

/-! # Interning

The table an interner builds for a stream of values: a reserved root at position 0, then every other
value once, in order of first occurrence (`table`). A value's reference is its position. The facts
an encoder needs are that the table only ever grows at its end, so that a reference once handed out
stays right (`idxOf_table_append`), and that the table is as long as there are distinct values. -/

namespace Interning

variable {α : Type} [DecidableEq α]

/-- The symbol table for the stream `xs`. -/
def table (root : α) (xs : List α) : List α := (root :: xs).eraseDups

@[simp] theorem mem_table {root x : α} {xs : List α} : x ∈ table root xs ↔ x = root ∨ x ∈ xs := by
  rw [table, List.mem_eraseDups, List.mem_cons]

theorem table_eq_cons (root : α) (xs : List α) :
    table root xs = root :: (xs.filter (fun x => !x == root)).eraseDups := List.eraseDups_cons

theorem root_mem_table (root : α) (xs : List α) : root ∈ table root xs := mem_table.2 (Or.inl rfl)

@[simp] theorem table_nil (root : α) : table root [] = [root] := by simp [table_eq_cons]

/-- A value seen before adds nothing. -/
theorem table_append_of_mem {root x : α} {xs : List α} (h : x ∈ table root xs) :
    table root (xs ++ [x]) = table root xs := by
  have hmem : x ∈ root :: xs := by simpa using h
  have hnew : [x].removeAll (root :: xs) = [] := by
    simp only [List.removeAll, List.filter_eq_nil_iff, List.mem_singleton, forall_eq]
    simpa [or_iff_not_imp_left] using hmem
  rw [table, ← List.cons_append, List.eraseDups_append, hnew]
  simp [table]

/-- A new value goes to the end. -/
theorem table_append_of_not_mem {root x : α} {xs : List α} (h : x ∉ table root xs) :
    table root (xs ++ [x]) = table root xs ++ [x] := by
  have hmem : x ∉ root :: xs := by simpa using h
  have hnew : [x].removeAll (root :: xs) = [x] := by
    simp only [List.removeAll, List.filter_eq_self, List.mem_singleton, forall_eq]
    simpa using hmem
  rw [table, ← List.cons_append, List.eraseDups_append, hnew]
  simp [table, List.eraseDups_cons]

theorem table_isPrefix (root : α) (xs ys : List α) : table root xs <+: table root (xs ++ ys) := by
  induction ys using List.reverseRecOn with
  | nil => simp
  | append_singleton ys y ih =>
      rw [← List.append_assoc]
      by_cases h : y ∈ table root (xs ++ ys)
      · rwa [table_append_of_mem h]
      · rw [table_append_of_not_mem h]
        exact ih.trans (List.prefix_append _ _)

/-- **References are stable**: more input never moves a value already in the table. -/
theorem idxOf_table_append {root x : α} {xs : List α} (ys : List α) (h : x ∈ table root xs) :
    (table root (xs ++ ys)).idxOf x = (table root xs).idxOf x := by
  obtain ⟨more, hmore⟩ := table_isPrefix root xs ys
  rw [← hmore, List.idxOf_append_of_mem h]

theorem nodup_table (root : α) (xs : List α) : (table root xs).Nodup := by
  induction xs using List.reverseRecOn with
  | nil => simp
  | append_singleton xs x ih =>
      by_cases h : x ∈ table root xs
      · rwa [table_append_of_mem h]
      · rw [table_append_of_not_mem h]
        exact List.nodup_append.2 ⟨ih, by simp, fun a ha b hb => by
          rintro rfl
          exact h (List.mem_singleton.1 hb ▸ ha)⟩

/-- The table is at most one longer than there are distinct values. -/
theorem length_table_le (root : α) (xs : List α) : (table root xs).length ≤ xs.toFinset.card + 1 := by
  have hsub : (table root xs).toFinset ⊆ insert root xs.toFinset := by
    intro x hx
    simpa using hx
  rw [← List.toFinset_card_of_nodup (nodup_table root xs)]
  exact le_trans (Finset.card_le_card hsub) (Finset.card_insert_le ..)

end Interning
