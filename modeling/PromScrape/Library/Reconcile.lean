import PromScrape.Library.Keyed

set_option autoImplicit false

/-! # Reconciling a keyed set of instances

Each running instance has a key and a number that is its own. Reconciling with a desired set of keys
stops the instances of other keys and starts one for each desired key that has none; an instance
whose key stays is left alone. -/

namespace Reconcile

variable {κ : Type} {running : List (κ × Nat)} {desired : List κ} {used : List Nat} {key : κ}
  {number next : Nat}

/-! ## Numbered instances -/

/-- One instance a key, every instance a number of its own, apart from those in `used`. -/
structure Numbered (used : List Nat) (running : List (κ × Nat)) (next : Nat) : Prop where
  keys : Keyed.Unique Prod.fst running
  numbers : (used ++ running.map Prod.snd).Nodup
  fresh : ∀ n ∈ used ++ running.map Prod.snd, n < next

theorem Numbered.clear (h : Numbered used running next) :
    Numbered used ([] : List (κ × Nat)) next := by
  refine ⟨Keyed.unique_nil, ?_, ?_⟩
  · rw [List.map_nil, List.append_nil]
    exact (List.nodup_append'.mp h.numbers).1
  · intro n hn
    rw [List.map_nil, List.append_nil] at hn
    exact h.fresh n (List.mem_append_left _ hn)

theorem Numbered.start (h : Numbered used running next) (hkey : key ∉ running.map Prod.fst) :
    Numbered used (running ++ [(key, next)]) (next + 1) := by
  have hnext : next ∉ used ++ running.map Prod.snd := fun hmem => Nat.lt_irrefl _ (h.fresh _ hmem)
  refine ⟨?_, ?_, ?_⟩
  · refine Keyed.unique_append.mpr ⟨h.keys, List.nodup_singleton _, ?_⟩
    intro k hk hmem
    rw [List.map_singleton, List.mem_singleton] at hmem
    subst hmem
    exact hkey hk
  · rw [List.map_append, ← List.append_assoc]
    exact List.nodup_append'.mpr ⟨h.numbers, List.nodup_singleton _, by simpa using hnext⟩
  · intro n hn
    rw [List.map_append, ← List.append_assoc, List.mem_append] at hn
    rcases hn with hn | hn
    · exact Nat.lt_succ_of_lt (h.fresh n hn)
    · rw [List.map_singleton, List.mem_singleton] at hn
      omega

/-! ## Operations -/

variable [DecidableEq κ]

/-- The keys whose instances have to stop. -/
def surplus (desired : List κ) (running : List (κ × Nat)) : List κ :=
  (running.map Prod.fst).filter (· ∉ desired)

/-- The instances of all other keys. -/
def without (key : κ) (running : List (κ × Nat)) : List (κ × Nat) :=
  running.filter fun instance_ => instance_.1 ≠ key

/-- Start an instance for each key that has none; numbers count up from `next`. -/
def startMissing : List κ → List (κ × Nat) → Nat → List (κ × Nat) × Nat
  | [], running, next => (running, next)
  | key :: rest, running, next =>
      if key ∈ running.map Prod.fst then startMissing rest running next
      else startMissing rest (running ++ [(key, next)]) (next + 1)

theorem mem_surplus : key ∈ surplus desired running ↔ key ∈ running.map Prod.fst ∧ key ∉ desired := by
  simp [surplus, List.mem_filter]

theorem mem_without {entry : κ × Nat} :
    entry ∈ without key running ↔ entry ∈ running ∧ entry.1 ≠ key := by
  simp [without, List.mem_filter]

/-! ## Stopping -/

/-- Stopping an instance moves its number to the used ones. -/
theorem Numbered.stop (h : Numbered used running next) (hmem : (key, number) ∈ running) :
    Numbered (used ++ [number]) (without key running) next := by
  have hperm : running.Perm ((key, number) :: without key running) :=
    h.keys.perm_cons_filter hmem
  have hnumbers : (used ++ running.map Prod.snd).Perm
      ((used ++ [number]) ++ (without key running).map Prod.snd) := by
    rw [List.append_assoc]
    exact (hperm.map Prod.snd).append_left used
  exact ⟨h.keys.filter _, hnumbers.nodup_iff.mp h.numbers,
    fun n hn => h.fresh n (hnumbers.mem_iff.mpr hn)⟩

/-! ## Starting -/

theorem Numbered.startMissing (h : Numbered used running next) (desired : List κ) :
    Numbered used (Reconcile.startMissing desired running next).1
      (Reconcile.startMissing desired running next).2 := by
  induction desired generalizing running next with
  | nil => exact h
  | cons key rest ih =>
      rw [Reconcile.startMissing]
      split
      · exact ih h
      · next hkey => exact ih (h.start hkey)

/-- Instances that run stay as they are. -/
theorem mem_startMissing_of_mem {entry : κ × Nat} (h : entry ∈ running) :
    entry ∈ (startMissing desired running next).1 := by
  induction desired generalizing running next with
  | nil => exact h
  | cons key rest ih =>
      rw [startMissing]
      split
      · exact ih h
      · exact ih (List.mem_append_left _ h)

/-- **Afterwards there is an instance for every desired key**, and for those there were. -/
theorem mem_keys_startMissing :
    key ∈ (startMissing desired running next).1.map Prod.fst ↔
      key ∈ running.map Prod.fst ∨ key ∈ desired := by
  induction desired generalizing running next with
  | nil => simp [startMissing]
  | cons first rest ih =>
      rw [startMissing]
      split
      · next hfirst =>
          rw [ih, List.mem_cons]
          constructor
          · exact fun h => h.imp_right .inr
          · rintro (h | rfl | h)
            · exact .inl h
            · exact .inl hfirst
            · exact .inr h
      · rw [ih, List.map_append, List.mem_append, List.map_singleton, List.mem_singleton,
          List.mem_cons, or_assoc]

end Reconcile
