import Mathlib

set_option autoImplicit false

/-! # Maps as lists in key order

A map over a linear order, as the list of its entries with strictly increasing keys. -/

namespace SortedMap

variable {κ β : Type} [LinearOrder κ] {entries : List (κ × β)} {key k : κ} {value : β}

/-- Each key is below those that follow. -/
abbrev Sorted (entries : List (κ × β)) : Prop := entries.Pairwise (fun a b => a.1 < b.1)

/-- The value under `key`. -/
def find (key : κ) : List (κ × β) → Option β
  | [] => none
  | entry :: rest => if entry.1 = key then some entry.2 else find key rest

/-- Put `value` under `key`, in the place of what was there. -/
def insert (key : κ) (value : β) : List (κ × β) → List (κ × β)
  | [] => [(key, value)]
  | entry :: rest =>
      if key < entry.1 then (key, value) :: entry :: rest
      else if key = entry.1 then (key, value) :: rest
      else entry :: insert key value rest

/-- The entries with other keys. -/
def erase (key : κ) (entries : List (κ × β)) : List (κ × β) := entries.filter fun e => e.1 ≠ key

theorem find_insert :
    find k (insert key value entries) = if key = k then some value else find k entries := by
  induction entries with
  | nil => rfl
  | cons entry rest ih =>
      by_cases hlt : key < entry.1
      · rw [insert, if_pos hlt, find]
      · by_cases heq : key = entry.1
        · rw [insert, if_neg hlt, if_pos heq, find, find, ← heq]
          split_ifs <;> rfl
        · rw [insert, if_neg hlt, if_neg heq, find, ih, find]
          split_ifs with hentry hkey
          · exact absurd (hkey.trans hentry.symm) heq
          · rfl
          · rfl
          · rfl

theorem mem_insert {entry : κ × β} (h : entry ∈ insert key value entries) :
    entry = (key, value) ∨ entry ∈ entries := by
  induction entries with
  | nil => exact .inl (List.mem_singleton.mp h)
  | cons e rest ih =>
      rw [insert] at h
      split_ifs at h with hlt heq
      · exact List.mem_cons.mp h
      · rcases List.mem_cons.mp h with hnew | hrest
        · exact .inl hnew
        · exact .inr (List.mem_cons_of_mem _ hrest)
      · rcases List.mem_cons.mp h with hhead | htail
        · exact .inr (List.mem_cons.mpr (.inl hhead))
        · exact (ih htail).imp id (List.mem_cons_of_mem _)

theorem Sorted.insert (h : Sorted entries) (key : κ) (value : β) :
    Sorted (SortedMap.insert key value entries) := by
  induction entries with
  | nil => exact List.pairwise_singleton ..
  | cons entry rest ih =>
      obtain ⟨hhead, htail⟩ := List.pairwise_cons.mp h
      rw [SortedMap.insert]
      split_ifs with hlt heq
      · refine List.pairwise_cons.mpr ⟨fun e he => ?_, h⟩
        rcases List.mem_cons.mp he with rfl | hrest
        · exact hlt
        · exact hlt.trans (hhead e hrest)
      · subst heq
        exact List.pairwise_cons.mpr ⟨hhead, htail⟩
      · refine List.pairwise_cons.mpr ⟨fun e he => ?_, ih htail⟩
        rcases mem_insert he with rfl | hrest
        · exact lt_of_le_of_ne (not_lt.mp hlt) (Ne.symm heq)
        · exact hhead e hrest

theorem Sorted.erase (h : Sorted entries) (key : κ) : Sorted (SortedMap.erase key entries) :=
  h.sublist List.filter_sublist

end SortedMap
