import Mathlib

set_option autoImplicit false

/-! # Slots

A list of slots, each occupied or free: a slot keeps its place when its occupant goes, so places are
names that are never used again. Sums over the occupants change by one summand when one slot does. -/

namespace Slots

variable {α : Type} {f g : α → ℤ} {slots : List (Option α)} {i : Nat} {a : α}

/-- The occupants, in the order of their slots. -/
def live (slots : List (Option α)) : List α := slots.filterMap id

theorem mem_live : a ∈ live slots ↔ some a ∈ slots := by simp [live, List.mem_filterMap]

/-- The sum of `f` over the occupants. -/
def total (f : α → ℤ) (slots : List (Option α)) : ℤ := (slots.map fun slot => slot.elim 0 f).sum

@[simp] theorem total_nil : total f [] = 0 := rfl

@[simp] theorem total_cons (slot : Option α) :
    total f (slot :: slots) = slot.elim 0 f + total f slots := List.sum_cons

theorem total_append_singleton (slot : Option α) :
    total f (slots ++ [slot]) = total f slots + slot.elim 0 f := by
  simp [total]

theorem total_eq_live : total f slots = ((live slots).map f).sum := by
  induction slots with
  | nil => rfl
  | cons slot slots ih =>
      rw [total_cons, ih]
      cases slot with
      | none => simp [live]
      | some a => simp [live]

/-- **One slot changes, one summand changes.** -/
theorem total_set (h : slots[i]? = some (some a)) (slot : Option α) :
    total f (slots.set i slot) = total f slots - f a + slot.elim 0 f := by
  induction slots generalizing i with
  | nil => cases h
  | cons first slots ih =>
      cases i with
      | zero =>
          cases h
          rw [List.set_cons_zero, total_cons, total_cons, Option.elim_some]
          ring
      | succ i =>
          rw [List.set_cons_succ, total_cons, total_cons, ih h]
          ring

theorem total_nonneg (hf : ∀ a, 0 ≤ f a) : 0 ≤ total f slots := by
  refine List.sum_nonneg fun x hx => ?_
  obtain ⟨slot, -, rfl⟩ := List.mem_map.mp hx
  cases slot with
  | none => exact le_refl 0
  | some a => exact hf a

/-- An occupant's own part is within the sum. -/
theorem le_total (hf : ∀ a, 0 ≤ f a) (h : slots[i]? = some (some a)) : f a ≤ total f slots := by
  have hset := total_set (f := f) h none
  have hrest : 0 ≤ total f (slots.set i none) := total_nonneg hf
  rw [Option.elim_none] at hset
  omega

/-- Parts that agree modulo `n` have sums that do. -/
theorem total_modEq {n : ℤ} (h : ∀ a, some a ∈ slots → f a ≡ g a [ZMOD n]) :
    total f slots ≡ total g slots [ZMOD n] := by
  induction slots with
  | nil => rfl
  | cons slot slots ih =>
      rw [total_cons, total_cons]
      refine Int.ModEq.add ?_ (ih fun a ha => h a (List.mem_cons_of_mem _ ha))
      cases slot with
      | none => rfl
      | some a => exact h a List.mem_cons_self

/-- What a replaced slot leaves: the others and the new occupant. -/
theorem mem_set {slot : Option α} (h : some a ∈ slots.set i slot) :
    some a = slot ∨ some a ∈ slots := (List.mem_or_eq_of_mem_set h).symm

end Slots
