import Mathlib

set_option autoImplicit false

/-! # Two runs side by side

A run takes a list of steps, each of which gives a state, gives none (the run is dropped) or fails.
Two runs stay related when each pair of steps that both reach relates what it gives, and where a
condition says exactly when a pair of steps does so, it says exactly when the runs agree after every
step. -/

namespace Lockstep

variable {ε σ τ ρ : Type}

/-- The same failure, both dropped, or related states. -/
inductive Agree (R : σ → τ → Prop) : Except ε (Option σ) → Except ε (Option τ) → Prop where
  | failed (err : ε) : Agree R (.error err) (.error err)
  | dropped : Agree R (.ok none) (.ok none)
  | related {s : σ} {t : τ} (h : R s t) : Agree R (.ok (some s)) (.ok (some t))

/-- The steps in order, until one drops the run or fails. -/
def run (step : σ → ρ → Except ε (Option σ)) : σ → List ρ → Except ε (Option σ)
  | s, [] => .ok (some s)
  | s, r :: rest =>
      match step s r with
      | .ok (some next) => run step next rest
      | .ok none => .ok none
      | .error err => .error err

/-- The condition holds at every step that both runs reach. -/
def AtEach (f : σ → ρ → Except ε (Option σ)) (g : τ → ρ → Except ε (Option τ))
    (C : σ → τ → ρ → Prop) : σ → τ → List ρ → Prop
  | _, _, [] => True
  | s, t, r :: rest =>
      C s t r ∧ ∀ s' t', f s r = .ok (some s') → g t r = .ok (some t') → AtEach f g C s' t' rest

theorem run_map {ρ' : Type} (step : σ → ρ → Except ε (Option σ)) (k : ρ' → ρ) (s : σ)
    (rs : List ρ') : run step s (rs.map k) = run (fun s r => step s (k r)) s rs := by
  induction rs generalizing s with
  | nil => rfl
  | cons r rest ih =>
      rw [List.map_cons, run, run]
      rcases step s (k r) with err | _ | next
      · rfl
      · rfl
      · exact ih next

theorem run_singleton (step : σ → ρ → Except ε (Option σ)) (s : σ) (r : ρ) :
    run step s [r] = step s r := by
  rw [run]
  rcases step s r with err | _ | next <;> rfl

/-- **Two runs agree after every step exactly when the condition holds at every step they reach**, if
it says of related states whether their steps agree. -/
theorem atEach_iff {R : σ → τ → Prop} {f : σ → ρ → Except ε (Option σ)}
    {g : τ → ρ → Except ε (Option τ)} {C : σ → τ → ρ → Prop}
    (hstep : ∀ s t r, R s t → (Agree R (f s r) (g t r) ↔ C s t r)) (rs : List ρ) {s : σ} {t : τ}
    (h : R s t) :
    AtEach f g C s t rs ↔ ∀ n, Agree R (run f s (rs.take n)) (run g t (rs.take n)) := by
  induction rs generalizing s t with
  | nil =>
      refine iff_of_true trivial fun n => ?_
      rw [List.take_nil]
      exact .related h
  | cons r rest ih =>
      rw [AtEach, ← hstep s t r h]
      constructor
      · rintro ⟨hone, hrest⟩ n
        cases n with
        | zero => exact .related h
        | succ n =>
            rw [List.take_succ_cons, run, run]
            generalize f s r = x at hone hrest
            generalize g t r = y at hone hrest
            cases hone with
            | failed err => exact .failed err
            | dropped => exact .dropped
            | related hnext => exact (ih hnext).mp (hrest _ _ rfl rfl) n
      · intro hall
        have hone : Agree R (f s r) (g t r) := by
          rw [← run_singleton f, ← run_singleton g]
          exact hall 1
        refine ⟨hone, fun s' t' hs ht => ?_⟩
        have hnext : R s' t' := by
          rw [hs, ht] at hone
          cases hone with
          | related hnext => exact hnext
        refine (ih hnext).mpr fun n => ?_
        have hlater := hall (n + 1)
        rw [List.take_succ_cons, run, run, hs, ht] at hlater
        exact hlater

end Lockstep
