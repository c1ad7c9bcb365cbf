import Mathlib

set_option autoImplicit false

/-! # Successful results of fallible code

What it means that a chain of fallible steps, or the same step on each element of a list, gives a
result. -/

namespace Fallible

variable {ε α β : Type}

/-- A computed check of the result. -/
theorem exists_ok_of_any {x : Except ε α} {p : α → Bool} (h : x.toOption.any p = true) :
    ∃ a, x = .ok a ∧ p a = true := by
  cases x with
  | error e => cases h
  | ok a => exact ⟨a, rfl, h⟩

theorem bind_eq_ok {x : Except ε α} {f : α → Except ε β} {b : β} :
    x >>= f = .ok b ↔ ∃ a, x = .ok a ∧ f a = .ok b := by
  cases x with
  | error e =>
      constructor
      · intro h
        cases h
      · rintro ⟨_, h, -⟩
        cases h
  | ok a =>
      constructor
      · intro h
        exact ⟨a, rfl, h⟩
      · rintro ⟨_, h, hf⟩
        cases h
        exact hf

theorem map_eq_ok {x : Except ε α} {f : α → β} {b : β} :
    x.map f = .ok b ↔ ∃ a, x = .ok a ∧ f a = b := by
  cases x with
  | error e =>
      constructor
      · intro h
        cases h
      · rintro ⟨_, h, -⟩
        cases h
  | ok a =>
      constructor
      · intro h
        cases h
        exact ⟨a, rfl, rfl⟩
      · rintro ⟨_, h, rfl⟩
        cases h
        rfl

theorem isOk_iff {x : Except ε α} : x.isOk = true ↔ ∃ a, x = .ok a := by
  cases x with
  | error e => exact iff_of_false (by simp [Except.isOk, Except.toBool]) (by simp)
  | ok a => exact iff_of_true rfl ⟨a, rfl⟩

/-- A result that is only put into another form. -/
theorem exists_map_ok {x : Except ε α} {f : α → β} :
    (∃ b, x.map f = .ok b) ↔ ∃ a, x = .ok a := by
  simp only [map_eq_ok]
  constructor
  · rintro ⟨_, a, h, -⟩
    exact ⟨a, h⟩
  · rintro ⟨a, h⟩
    exact ⟨_, a, h, rfl⟩

/-- Two steps that do not depend on each other. -/
theorem exists_both_ok {γ : Type} {x : Except ε α} {y : Except ε β} {f : α → β → γ} :
    (∃ c, (do let a ← x; let b ← y; .ok (f a b) : Except ε γ) = .ok c) ↔
      (∃ a, x = .ok a) ∧ ∃ b, y = .ok b := by
  simp only [bind_eq_ok]
  constructor
  · rintro ⟨_, a, ha, b, hb, -⟩
    exact ⟨⟨a, ha⟩, b, hb⟩
  · rintro ⟨⟨a, ha⟩, b, hb⟩
    exact ⟨_, a, ha, b, hb, rfl⟩

/-- A list of steps succeeds when each one does. -/
theorem mapM_eq_ok {f : α → Except ε β} {l : List α} {bs : List β} :
    l.mapM f = .ok bs ↔ List.Forall₂ (fun a b => f a = .ok b) l bs := by
  induction l generalizing bs with
  | nil =>
      rw [List.mapM_nil, List.forall₂_nil_left_iff]
      constructor
      · intro h
        cases h
        rfl
      · rintro rfl
        rfl
  | cons a l ih =>
      rw [List.mapM_cons, bind_eq_ok, List.forall₂_cons_left_iff]
      constructor
      · rintro ⟨b, hb, h⟩
        obtain ⟨bs', hbs', h⟩ := bind_eq_ok.mp h
        cases h
        exact ⟨b, bs', hb, ih.mp hbs', rfl⟩
      · rintro ⟨b, bs', hb, hbs', rfl⟩
        exact ⟨b, hb, bind_eq_ok.mpr ⟨bs', ih.mpr hbs', rfl⟩⟩

theorem exists_mapM_iff {f : α → Except ε β} {l : List α} :
    (∃ bs, l.mapM f = .ok bs) ↔ ∀ a ∈ l, ∃ b, f a = .ok b := by
  induction l with
  | nil => exact iff_of_true ⟨[], rfl⟩ (by simp)
  | cons a l ih =>
      rw [List.forall_mem_cons, ← ih]
      constructor
      · rintro ⟨bs, h⟩
        obtain ⟨b, rest, hb, hrest, -⟩ := List.forall₂_cons_left_iff.mp (mapM_eq_ok.mp h)
        exact ⟨⟨b, hb⟩, rest, mapM_eq_ok.mpr hrest⟩
      · rintro ⟨⟨b, hb⟩, rest, hrest⟩
        exact ⟨b :: rest, mapM_eq_ok.mpr (.cons hb (mapM_eq_ok.mp hrest))⟩

/-- Steps that are given up at the first failure: one is reached and succeeds if it and all in front of
it do. -/
theorem mem_takeWhile_isOk {f : α → Except ε β} {l : List α} {a : α} :
    a ∈ l.takeWhile (fun a => (f a).isOk) ↔
      ∃ before after, l = before ++ a :: after ∧ ∀ a' ∈ before ++ [a], ∃ b, f a' = .ok b := by
  simp only [← isOk_iff]
  constructor
  · intro ha
    obtain ⟨before, rest, hsplit⟩ := List.append_of_mem ha
    refine ⟨before, rest ++ l.dropWhile fun a => (f a).isOk, ?_, fun a' ha' => ?_⟩
    · rw [← List.cons_append, ← List.append_assoc, ← hsplit, List.takeWhile_append_dropWhile]
    · have hmem : a' ∈ l.takeWhile fun a => (f a).isOk := by
        rw [hsplit, List.append_cons]
        exact List.mem_append_left _ ha'
      exact @List.mem_takeWhile_imp _ (fun a => (f a).isOk) _ _ hmem
  · rintro ⟨before, after, rfl, hok⟩
    rw [List.append_cons, List.takeWhile_append_of_pos hok]
    simp

/-- The results are those of the steps. -/
theorem mem_mapM {f : α → Except ε β} {l : List α} {bs : List β} (h : l.mapM f = .ok bs) {b : β} :
    b ∈ bs ↔ ∃ a ∈ l, f a = .ok b := by
  have hsteps := mapM_eq_ok.mp h
  clear h
  induction hsteps with
  | nil => simp
  | @cons a b' l bs ha _ ih =>
      have hrest : b ∈ bs ↔ ∃ a ∈ l, f a = .ok b := ih
      rw [List.mem_cons, hrest, List.exists_mem_cons_iff, ha, Except.ok.injEq, eq_comm]

/-- A step and its result stand at the same place. -/
theorem getElem?_of_forall₂ {R : α → β → Prop} {as : List α} {bs : List β}
    (h : List.Forall₂ R as bs) {k : Nat} {a : α} {b : β} (ha : as[k]? = some a)
    (hb : bs[k]? = some b) : R a b := by
  obtain ⟨hak, rfl⟩ := List.getElem?_eq_some_iff.mp ha
  obtain ⟨hbk, rfl⟩ := List.getElem?_eq_some_iff.mp hb
  exact h.get hak hbk

/-- What each step establishes holds of all results. -/
theorem forall_of_mapM {f : α → Except ε β} {P : β → Prop} (hf : ∀ a b, f a = .ok b → P b)
    {l : List α} {bs : List β} (h : l.mapM f = .ok bs) : ∀ b ∈ bs, P b := by
  intro b hb
  obtain ⟨a, -, hab⟩ := (mem_mapM h).mp hb
  exact hf a b hab

/-- A view of the results that each step determines. -/
theorem map_of_mapM {γ : Type} {f : α → Except ε β} {g : β → γ} {k : α → γ}
    (hf : ∀ a b, f a = .ok b → g b = k a) {l : List α} {bs : List β} (h : l.mapM f = .ok bs) :
    bs.map g = l.map k := by
  have hsteps := mapM_eq_ok.mp h
  clear h
  induction hsteps with
  | nil => rfl
  | cons hb _ ih => rw [List.map_cons, List.map_cons, hf _ _ hb, ih]

/-- Steps that give lists: each one succeeds with a part of the result, and nothing else is in it. -/
theorem mem_flatten_of_mapM {f : α → Except ε (List β)} {l : List α} {bss : List (List β)}
    (h : l.mapM f = .ok bss) :
    (∀ a ∈ l, ∃ bs, f a = .ok bs ∧ ∀ b ∈ bs, b ∈ bss.flatten) ∧
      ∀ b ∈ bss.flatten, ∃ a ∈ l, ∃ bs, f a = .ok bs ∧ b ∈ bs := by
  constructor
  · intro a ha
    obtain ⟨bs, hbs⟩ := exists_mapM_iff.mp ⟨bss, h⟩ a ha
    have hpart : bs ∈ bss := (mem_mapM h).mpr ⟨a, ha, hbs⟩
    exact ⟨bs, hbs, fun b hb => List.mem_flatten.mpr ⟨bs, hpart, hb⟩⟩
  · intro b hb
    obtain ⟨bs, hpart, hmem⟩ := List.mem_flatten.mp hb
    obtain ⟨a, ha, hbs⟩ := (mem_mapM h).mp hpart
    exact ⟨a, ha, bs, hbs, hmem⟩

end Fallible
