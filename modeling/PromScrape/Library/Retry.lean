import Mathlib

set_option autoImplicit false

/-! # Retrying until an answer settles it

A request is repeated, unchanged, as long as its answers ask for it; between two attempts there is a
pause, which doubles up to a bound. -/

namespace Retry

/-! ## Pauses -/

/-- The pause after this one. -/
def next (bound pause : Nat) : Nat := min (pause * 2) bound

/-- The `i`th pause, the first being `first`. -/
def pause (first bound : Nat) : Nat → Nat
  | 0 => first
  | i + 1 => next bound (pause first bound i)

/-! ## Answers -/

section

variable {α : Type} {again accept : α → Bool} {answers : List α} {last : α}

/-- All answers ask for another attempt. -/
def Open (again : α → Bool) (answers : List α) : Prop := ∀ a ∈ answers, again a = true

/-- The last answer settles the request, and none before it did. -/
def SettledBy (again : α → Bool) (answers : List α) (last : α) : Prop :=
  again last = false ∧ ∃ front, answers = front ++ [last] ∧ Open again front

theorem open_nil : Open again [] := fun _ ha => absurd ha List.not_mem_nil

theorem Open.concat (h : Open again answers) (hlast : again last = true) :
    Open again (answers ++ [last]) := by
  intro a ha
  rcases List.mem_append.mp ha with hfront | hnew
  · exact h a hfront
  · rw [List.mem_singleton.mp hnew, hlast]

theorem Open.settled (h : Open again answers) (hlast : again last = false) :
    SettledBy again (answers ++ [last]) last :=
  ⟨hlast, answers, rfl, h⟩

/-- As long as a request is open, none of its answers accepts it. -/
theorem Open.filter_accept (h : Open again answers) (haccept : ∀ a, accept a = true → again a = false) :
    answers.filter accept = [] := by
  rw [List.filter_eq_nil_iff]
  intro a ha hacc
  have hnot := haccept a hacc
  rw [h a ha] at hnot
  cases hnot

/-- **A settled request is accepted once or not at all**, as its last answer says. -/
theorem SettledBy.filter_accept (h : SettledBy again answers last)
    (haccept : ∀ a, accept a = true → again a = false) :
    answers.filter accept = if accept last then [last] else [] := by
  obtain ⟨-, front, rfl, hopen⟩ := h
  rw [List.filter_append, hopen.filter_accept haccept, List.nil_append, List.filter_singleton]
  cases accept last <;> rfl

end

end Retry
