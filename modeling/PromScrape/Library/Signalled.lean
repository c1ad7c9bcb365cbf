import Mathlib

set_option autoImplicit false

/-! # Values derived from sources that signal their changes

Several sources hold a value each. Whoever changes one afterwards puts a signal into a channel that is
shared and bounded, where a signal finds no room it is dropped. A task derives something from what it
reads of the sources, one at a time, and takes a signal as the reason to read them again. Signals say
neither what changed nor how often; nothing is missed all the same, since a dropped signal finds the
channel full of others. -/

namespace Signalled

variable {ι : Type} {σ : ι → Type}

structure Sources (ι : Type) (σ : ι → Type) where
  value : (i : ι) → σ i
  /-- The source was changed, and its signal is still to be sent. -/
  owes : ι → Bool
  /-- The signals in the channel. -/
  signals : Nat

namespace Sources

def init (value : (i : ι) → σ i) : Sources ι σ := ⟨value, fun _ => false, 0⟩

section

variable [DecidableEq ι]

/-- The first half of a change. -/
def change (s : Sources ι σ) (i : ι) (value : σ i) : Sources ι σ :=
  { s with value := Function.update s.value i value, owes := Function.update s.owes i true }

/-- The second half: the signal goes into the channel, or is dropped where that is full. -/
def signal (capacity : Nat) (s : Sources ι σ) (i : ι) : Sources ι σ :=
  if s.owes i then
    { s with
      owes := Function.update s.owes i false
      signals := if s.signals < capacity then s.signals + 1 else s.signals }
  else s

end

def receive (s : Sources ι σ) : Sources ι σ := { s with signals := s.signals - 1 }

/-- No signal is in the channel or about to be sent by a source of `is`. -/
def Quiet (s : Sources ι σ) (is : List ι) : Prop := s.signals = 0 ∧ ∀ i ∈ is, s.owes i = false

/-- What was read of a source is what it holds, or a signal is there or to come. -/
def UpToDate (s : Sources ι σ) (i : ι) (read : σ i) : Prop :=
  0 < s.signals ∨ s.owes i = true ∨ read = s.value i

theorem upToDate_value (s : Sources ι σ) (i : ι) : s.UpToDate i (s.value i) := .inr (.inr rfl)

theorem UpToDate.eq_of_quiet {s : Sources ι σ} {i : ι} {read : σ i} {is : List ι}
    (h : s.UpToDate i read) (hquiet : s.Quiet is) (hi : i ∈ is) : read = s.value i := by
  obtain ⟨hsignals, howes⟩ := hquiet
  rcases h with hpending | howed | heq
  · omega
  · rw [howes i hi] at howed
    cases howed
  · exact heq

section

variable [DecidableEq ι] {s : Sources ι σ} {i : ι} {read : σ i}

/-- Whatever source changes. -/
theorem UpToDate.change (h : s.UpToDate i read) (j : ι) (value : σ j) :
    (s.change j value).UpToDate i read := by
  by_cases hj : i = j
  · subst hj
    exact .inr (.inl (Function.update_self ..))
  · rcases h with hpending | howed | heq
    · exact .inl hpending
    · refine .inr (.inl ?_)
      show Function.update s.owes j true i = true
      rw [Function.update_of_ne hj, howed]
    · refine .inr (.inr ?_)
      show read = Function.update s.value j value i
      rw [Function.update_of_ne hj, heq]

/-- **A dropped signal is not missed.** A full channel is not empty. -/
theorem signal_pending {capacity : Nat} (hcapacity : 0 < capacity) {j : ι} (howes : s.owes j = true) :
    0 < (s.signal capacity j).signals := by
  unfold signal
  rw [if_pos howes]
  show 0 < if s.signals < capacity then s.signals + 1 else s.signals
  split <;> omega

theorem UpToDate.signal {capacity : Nat} (hcapacity : 0 < capacity) (h : s.UpToDate i read) (j : ι) :
    (s.signal capacity j).UpToDate i read := by
  by_cases howes : s.owes j = true
  · exact .inl (signal_pending hcapacity howes)
  · unfold Sources.signal
    rw [if_neg howes]
    exact h

end

end Sources

end Signalled
