import PromScrape.Proofs.LabelNames

set_option autoImplicit false

/-! # What merging target labels loses

Without `honor_labels` a scraped label whose name a target label has moves to `exported_<name>`. The
move overwrites whatever is called that already: a scraped label, or a target label that was merged
before. `Clobbers` says from the names alone when that happens. -/

namespace PromScrape

variable {raw targets labels : List Label} {name : String} {k : ℕ}

/-! ## Names with prefixes -/

/-- `name` with `k` prefixes `exported_`. -/
def exportedName (k : ℕ) (name : String) : String := (exportedLabelPrefix ++ ·)^[k] name

@[simp] theorem exportedName_zero (name : String) : exportedName 0 name = name := rfl

theorem exportedName_succ (k : ℕ) (name : String) :
    exportedName (k + 1) name = exportedLabelPrefix ++ exportedName k name :=
  Function.iterate_succ_apply' _ k name

theorem exportedName_exported (k : ℕ) (name : String) :
    exportedName k (exportedLabelPrefix ++ name) = exportedName (k + 1) name :=
  (Function.iterate_succ_apply _ k name).symm

theorem length_exportedName (k : ℕ) (name : String) :
    (exportedName k name).length = 9 * k + name.length := by
  induction k with
  | zero => simp
  | succ k ih =>
      have hprefix : exportedLabelPrefix.length = 9 := by decide
      rw [exportedName_succ, String.length_append, ih, hprefix]
      omega

theorem exported_injective {a b : String} (h : exportedLabelPrefix ++ a = exportedLabelPrefix ++ b) :
    a = b := by
  have hlist := congrArg String.toList h
  rw [String.toList_append, String.toList_append] at hlist
  exact String.toList_inj.mp (List.append_cancel_left hlist)

/-- A prefixed name is a different name. -/
theorem exportedName_ne (k : ℕ) (name : String) : exportedName (k + 1) name ≠ name := by
  intro h
  have hlen := congrArg String.length h
  rw [length_exportedName] at hlen
  omega

/-! ## What merging should keep -/

/-- Nothing is lost: unique names, every target label, and the value of every scraped label under its
    own name, if no target label has it, or under that name with prefixes. -/
structure LosesNothing (raw targets merged : List Label) : Prop where
  unique : UniqueNames merged
  keepsTargets : ∀ t ∈ targets, t ∈ merged
  keepsScraped : ∀ l ∈ raw, (l ∈ merged ∧ l.name ∉ targets.map Label.name) ∨
    ∃ k, 1 ≤ k ∧ (⟨exportedName k l.name, l.value⟩ : Label) ∈ merged

/-- Nothing is lost, and no two labels share a place: every scraped label has a label of its own in
    the result, which is no target's. Where two labels have one value, `LosesNothing` can hold
    although one of them was overwritten; this cannot. -/
structure KeepsEach (raw targets merged : List Label) : Prop where
  unique : UniqueNames merged
  keepsTargets : ∀ t ∈ targets, t ∈ merged
  keepsScraped : ∃ place : Label → ℕ,
    (∀ l ∈ raw, (⟨exportedName (place l) l.name, l.value⟩ : Label) ∈ merged ∧
      exportedName (place l) l.name ∉ targets.map Label.name) ∧
    Keyed.Unique (fun l => exportedName (place l) l.name) raw

/-- No two labels have the same value. -/
def DistinctValues (raw targets : List Label) : Prop := ((raw ++ targets).map Label.value).Nodup

theorem KeepsEach.losesNothing {merged : List Label} (h : KeepsEach raw targets merged) :
    LosesNothing raw targets merged := by
  obtain ⟨place, hplace, -⟩ := h.keepsScraped
  refine ⟨h.unique, h.keepsTargets, fun l hl => ?_⟩
  obtain ⟨hmem, hfree⟩ := hplace l hl
  rcases Nat.eq_zero_or_pos (place l) with hzero | hpos
  · rw [hzero, exportedName_zero] at hmem hfree
    exact .inl ⟨hmem, hfree⟩
  · exact .inr ⟨place l, hpos, hmem⟩

/-- With distinct values two labels cannot be found in one place. -/
theorem LosesNothing.keepsEach {merged : List Label} (h : LosesNothing raw targets merged)
    (hvalues : DistinctValues raw targets) : KeepsEach raw targets merged := by
  rw [DistinctValues, List.map_append, List.nodup_append'] at hvalues
  obtain ⟨hraw, -, hapart⟩ := hvalues
  have hplace : ∀ l ∈ raw, ∃ k, (⟨exportedName k l.name, l.value⟩ : Label) ∈ merged ∧
      exportedName k l.name ∉ targets.map Label.name := by
    intro l hl
    rcases h.keepsScraped l hl with ⟨hmem, hfree⟩ | ⟨k, -, hmem⟩
    · exact ⟨0, hmem, hfree⟩
    · refine ⟨k, hmem, fun htaken => ?_⟩
      obtain ⟨t, ht, hname⟩ := List.mem_map.mp htaken
      have heq := Keyed.Unique.eq_of_key h.unique (h.keepsTargets t ht) hmem hname
      have hvalue : l.value ∈ targets.map Label.value := List.mem_map.mpr ⟨t, ht, by rw [heq]⟩
      exact hapart (List.mem_map_of_mem hl) hvalue
  choose! place hplace using hplace
  refine ⟨h.unique, h.keepsTargets, place, hplace, ?_⟩
  have hinj : ∀ l ∈ raw, ∀ l' ∈ raw,
      exportedName (place l) l.name = exportedName (place l') l'.name → l = l' := by
    intro l hl l' hl' hname
    have heq := Keyed.Unique.eq_of_key h.unique (hplace l hl).1 (hplace l' hl').1 hname
    injection heq with _ hvalue
    exact List.inj_on_of_nodup_map hraw hl hl' hvalue
  exact List.Nodup.map_on hinj (List.Nodup.of_map _ hraw)

/-! ## One target label -/

/-- What merging one target label does: the label is appended, or the label it displaces is set under
    its exported name. -/
theorem mergeTargetLabel_cases (labels : List Label) (t : Label) :
    (t.name ∉ labels.map Label.name ∧ mergeTargetLabel false labels t = labels ++ [t]) ∨
      ∃ old, old ∈ labels ∧ old.name = t.name ∧
        mergeTargetLabel false labels t = Keyed.upsert Label.name
          ⟨exportedLabelPrefix ++ t.name, old.value⟩ (Keyed.upsert Label.name t labels) := by
  rw [mergeTargetLabel, if_neg Bool.false_ne_true]
  cases hfind : labels.find? (fun label => label.name == t.name) with
  | none => exact .inl ⟨Keyed.find?_eq_none_iff.mp hfind, rfl⟩
  | some old =>
      obtain ⟨hold, hname⟩ := Keyed.mem_of_find? hfind
      exact .inr ⟨old, hold, hname, by simp only [setLabel, set_eq_upsert]⟩

/-- Whether merging a target label called `name` overwrites one of the labels called `taken`. -/
def Overwrites (taken : List String) (name : String) : Prop :=
  name ∈ taken ∧ exportedLabelPrefix ++ name ∈ taken

/-- The name that merging a target label called `name` adds if it overwrites nothing. -/
def addedName (taken : List String) (name : String) : String :=
  if name ∈ taken then exportedLabelPrefix ++ name else name

theorem mem_names_mergeTargetLabel (labels : List Label) (t : Label) (name : String) :
    name ∈ (mergeTargetLabel false labels t).map Label.name ↔
      name = addedName (labels.map Label.name) t.name ∨ name ∈ labels.map Label.name := by
  rcases mergeTargetLabel_cases labels t with ⟨habsent, heq⟩ | ⟨old, hold, hname, heq⟩
  · rw [heq, addedName, if_neg habsent, List.map_append, List.mem_append, or_comm]
    simp
  · have hpresent : t.name ∈ labels.map Label.name := List.mem_map.mpr ⟨old, hold, hname⟩
    rw [heq, addedName, if_pos hpresent, Keyed.mem_map_upsert, Keyed.mem_map_upsert]
    constructor
    · rintro (h | rfl | h)
      · exact .inl h
      · exact .inr hpresent
      · exact .inr h
    · rintro (h | h)
      · exact .inl h
      · exact .inr (.inr h)

/-- Merging adds a label exactly when it overwrites none. -/
theorem length_mergeTargetLabel (labels : List Label) (t : Label) :
    (Overwrites (labels.map Label.name) t.name ∧
        (mergeTargetLabel false labels t).length = labels.length) ∨
      (¬ Overwrites (labels.map Label.name) t.name ∧
        (mergeTargetLabel false labels t).length = labels.length + 1) := by
  rcases mergeTargetLabel_cases labels t with ⟨habsent, heq⟩ | ⟨old, hold, hname, heq⟩
  · exact .inr ⟨fun h => habsent h.1, by rw [heq]; simp⟩
  · have hpresent : t.name ∈ labels.map Label.name := List.mem_map.mpr ⟨old, hold, hname⟩
    have hkeys := Keyed.map_upsert_of_mem hpresent
    have hlength : (Keyed.upsert Label.name t labels).length = labels.length := by
      simpa using congrArg List.length hkeys
    by_cases hexported : exportedLabelPrefix ++ t.name ∈ labels.map Label.name
    · refine .inl ⟨⟨hpresent, hexported⟩, ?_⟩
      have hexport : (⟨exportedLabelPrefix ++ t.name, old.value⟩ : Label).name ∈
          (Keyed.upsert Label.name t labels).map Label.name := hkeys ▸ hexported
      rw [heq, ← hlength]
      simpa using congrArg List.length (Keyed.map_upsert_of_mem hexport)
    · refine .inr ⟨fun h => hexported h.2, ?_⟩
      rw [heq, Keyed.upsert_of_not_mem (hkeys ▸ hexported), List.length_append, hlength]
      rfl

/-! ## All target labels -/

/-- No target label overwrites anything, starting from the names `taken`. -/
def NoOverwrite : List String → List String → Prop
  | _, [] => True
  | taken, name :: rest => ¬ Overwrites taken name ∧ NoOverwrite (addedName taken name :: taken) rest

/-- Only the set of taken names counts. -/
theorem noOverwrite_congr {names taken taken' : List String} (h : ∀ name, name ∈ taken ↔ name ∈ taken') :
    NoOverwrite taken names ↔ NoOverwrite taken' names := by
  induction names generalizing taken taken' with
  | nil => exact Iff.rfl
  | cons name rest ih =>
      have hover : Overwrites taken name ↔ Overwrites taken' name := and_congr (h _) (h _)
      have hadded : addedName taken name = addedName taken' name := by simp only [addedName, h]
      rw [NoOverwrite, NoOverwrite, hover, hadded]
      refine and_congr Iff.rfl (ih fun other => ?_)
      rw [List.mem_cons, List.mem_cons, h]

theorem mergeTargetLabels_cons (labels : List Label) (t : Label) (rest : List Label) :
    mergeTargetLabels labels (t :: rest) false =
      mergeTargetLabels (mergeTargetLabel false labels t) rest false := rfl

/-- **The result has a label for each of both lists exactly when nothing is overwritten.** -/
theorem length_mergeTargetLabels (labels targets : List Label) :
    (mergeTargetLabels labels targets false).length ≤ labels.length + targets.length ∧
      (labels.length + targets.length ≤ (mergeTargetLabels labels targets false).length ↔
        NoOverwrite (labels.map Label.name) (targets.map Label.name)) := by
  induction targets generalizing labels with
  | nil => simp [mergeTargetLabels, NoOverwrite]
  | cons t rest ih =>
      obtain ⟨hle, hiff⟩ := ih (mergeTargetLabel false labels t)
      have hnames : NoOverwrite ((mergeTargetLabel false labels t).map Label.name)
          (rest.map Label.name) ↔
          NoOverwrite (addedName (labels.map Label.name) t.name :: labels.map Label.name)
            (rest.map Label.name) := by
        apply noOverwrite_congr
        intro name
        rw [mem_names_mergeTargetLabel, List.mem_cons]
      rw [mergeTargetLabels_cons, List.map_cons, NoOverwrite, List.length_cons, ← hnames, ← hiff]
      rcases length_mergeTargetLabel labels t with ⟨hover, hlen⟩ | ⟨hover, hlen⟩
      · rw [hlen] at hle ⊢
        refine ⟨by omega, ?_⟩
        constructor
        · intro h
          omega
        · rintro ⟨h, -⟩
          exact absurd hover h
      · rw [hlen] at hle ⊢
        refine ⟨by omega, ?_⟩
        constructor
        · intro h
          exact ⟨hover, by omega⟩
        · rintro ⟨-, h⟩
          omega

/-- Labels that each have a place of their own are as many as both lists have. -/
theorem KeepsEach.length_le {merged : List Label} (htargets : UniqueNames targets)
    (h : KeepsEach raw targets merged) : raw.length + targets.length ≤ merged.length := by
  obtain ⟨place, hplace, hapart⟩ := h.keepsScraped
  have hnodup : (raw.map (fun l => exportedName (place l) l.name) ++
      targets.map Label.name).Nodup := by
    rw [List.nodup_append']
    refine ⟨hapart, htargets, fun name hname => ?_⟩
    obtain ⟨l, hl, rfl⟩ := List.mem_map.mp hname
    exact (hplace l hl).2
  have hsubset : raw.map (fun l => exportedName (place l) l.name) ++ targets.map Label.name ⊆
      merged.map Label.name := by
    intro name hname
    rcases List.mem_append.mp hname with hname | hname
    · obtain ⟨l, hl, rfl⟩ := List.mem_map.mp hname
      exact List.mem_map.mpr ⟨_, (hplace l hl).1, rfl⟩
    · obtain ⟨t, ht, rfl⟩ := List.mem_map.mp hname
      exact List.mem_map_of_mem (h.keepsTargets t ht)
  have hlength := (List.subperm_of_subset hnodup hsubset).length_le
  simpa using hlength

/-! ## The result without overwriting -/

theorem keepsEach_nil (h : UniqueNames raw) : KeepsEach raw [] raw where
  unique := h
  keepsTargets := nofun
  keepsScraped := ⟨fun _ => 0, fun _ hl => ⟨hl, List.not_mem_nil⟩, h⟩

/-- The labels after a displacement that overwrites nothing. -/
theorem mem_of_displaced {t old b : Label} (h : UniqueNames labels)
    (hexported : exportedLabelPrefix ++ t.name ∉ labels.map Label.name) :
    b ∈ Keyed.upsert Label.name ⟨exportedLabelPrefix ++ t.name, old.value⟩
        (Keyed.upsert Label.name t labels) ↔
      b = ⟨exportedLabelPrefix ++ t.name, old.value⟩ ∨ b = t ∨ b ∈ labels ∧ b.name ≠ t.name := by
  rw [Keyed.Unique.mem_upsert (Keyed.Unique.upsert h t), Keyed.Unique.mem_upsert h]
  constructor
  · rintro (hb | ⟨hb, -⟩)
    · exact .inl hb
    · exact .inr hb
  · rintro (hb | rfl | ⟨hb, hbt⟩)
    · exact .inl hb
    · exact .inr ⟨.inl rfl, (exportedName_ne 0 b.name).symm⟩
    · refine .inr ⟨.inr ⟨hb, hbt⟩, fun hsame => ?_⟩
      exact hexported (List.mem_map.mpr ⟨b, hb, hsame⟩)

/-- The places after `name` was displaced: who had it gets one more prefix. -/
def displace (place : Label → ℕ) (name : String) (l : Label) : ℕ :=
  if exportedName (place l) l.name = name then place l + 1 else place l

theorem displace_eq {place : Label → ℕ} {l : Label} (h : exportedName (place l) l.name = name) :
    exportedName (displace place name l) l.name = exportedLabelPrefix ++ name := by
  rw [displace, if_pos h, exportedName_succ, h]

theorem displace_ne {place : Label → ℕ} {l : Label} (h : exportedName (place l) l.name ≠ name) :
    displace place name l = place l := if_neg h

/-- Places stay apart when a name is displaced to one that nobody has. -/
theorem displace_unique {place : Label → ℕ}
    (hapart : Keyed.Unique (fun l => exportedName (place l) l.name) raw)
    (hfree : ∀ l ∈ raw, exportedName (place l) l.name ≠ exportedLabelPrefix ++ name) :
    Keyed.Unique (fun l => exportedName (displace place name l) l.name) raw := by
  refine List.Nodup.map_on (fun l hl l' hl' hplaces => ?_) (Keyed.Unique.nodup hapart)
  refine Keyed.Unique.eq_of_key hapart hl hl' ?_
  by_cases hsame : exportedName (place l) l.name = name <;>
    by_cases hsame' : exportedName (place l') l'.name = name
  · exact hsame.trans hsame'.symm
  · rw [displace_eq hsame, displace_ne hsame'] at hplaces
    exact absurd hplaces.symm (hfree l' hl')
  · rw [displace_ne hsame, displace_eq hsame'] at hplaces
    exact absurd hplaces (hfree l hl)
  · rwa [displace_ne hsame, displace_ne hsame'] at hplaces

theorem not_mem_names_append_singleton {done : List Label} {t : Label} {name : String} :
    name ∉ (done ++ [t]).map Label.name ↔ name ∉ done.map Label.name ∧ name ≠ t.name := by
  rw [List.map_append, List.mem_append, List.map_singleton, List.mem_singleton, not_or]

/-- A target label of a new name takes no place. -/
theorem KeepsEach.append {done : List Label} {t : Label} (h : KeepsEach raw done labels)
    (habsent : t.name ∉ labels.map Label.name) (hunique : UniqueNames (labels ++ [t])) :
    KeepsEach raw (done ++ [t]) (labels ++ [t]) := by
  obtain ⟨place, hplace, hapart⟩ := h.keepsScraped
  refine ⟨hunique, fun d hd => ?_, place, fun l hl => ?_, hapart⟩
  · rcases List.mem_append.mp hd with hd | hd
    · exact List.mem_append_left _ (h.keepsTargets d hd)
    · exact List.mem_append_right _ hd
  · obtain ⟨hmem, hfree⟩ := hplace l hl
    refine ⟨List.mem_append_left _ hmem, not_mem_names_append_singleton.mpr ⟨hfree, ?_⟩⟩
    intro hsame
    exact habsent (List.mem_map.mpr ⟨_, hmem, hsame⟩)

/-- A target label that moves a scraped one to a name that nobody has. -/
theorem KeepsEach.displace {done : List Label} {t old : Label} (h : KeepsEach raw done labels)
    (hfresh : t.name ∉ done.map Label.name) (hold : old ∈ labels) (hname : old.name = t.name)
    (hexported : exportedLabelPrefix ++ t.name ∉ labels.map Label.name)
    (hunique : UniqueNames (Keyed.upsert Label.name ⟨exportedLabelPrefix ++ t.name, old.value⟩
      (Keyed.upsert Label.name t labels))) :
    KeepsEach raw (done ++ [t]) (Keyed.upsert Label.name
      ⟨exportedLabelPrefix ++ t.name, old.value⟩ (Keyed.upsert Label.name t labels)) := by
  obtain ⟨place, hplace, hapart⟩ := h.keepsScraped
  refine ⟨hunique, fun d hd => ?_, PromScrape.displace place t.name, fun l hl => ?_, ?_⟩
  · rw [mem_of_displaced h.unique hexported]
    rcases List.mem_append.mp hd with hd | hd
    · refine .inr (.inr ⟨h.keepsTargets d hd, fun hsame => ?_⟩)
      exact hfresh (List.mem_map.mpr ⟨d, hd, hsame⟩)
    · exact .inr (.inl (List.mem_singleton.mp hd))
  · obtain ⟨hin, hfree⟩ := hplace l hl
    rw [mem_of_displaced h.unique hexported, not_mem_names_append_singleton]
    by_cases hsame : exportedName (place l) l.name = t.name
    · have hvalue := Keyed.Unique.eq_of_key h.unique hin hold (hsame.trans hname.symm)
      rw [displace_eq hsame]
      refine ⟨.inl (by rw [← hvalue]), fun hd => ?_, exportedName_ne 0 t.name⟩
      obtain ⟨d, hd, hdname⟩ := List.mem_map.mp hd
      exact hexported (List.mem_map.mpr ⟨d, h.keepsTargets d hd, hdname⟩)
    · rw [displace_ne hsame]
      exact ⟨.inr (.inr ⟨hin, hsame⟩), hfree, hsame⟩
  · refine displace_unique hapart fun l hl hsame => ?_
    exact hexported (hsame ▸ List.mem_map.mpr ⟨_, (hplace l hl).1, rfl⟩)

/-- A merged target label that overwrites nothing. -/
theorem KeepsEach.mergeTargetLabel {done : List Label} {t : Label}
    (h : KeepsEach raw done labels) (hfresh : t.name ∉ done.map Label.name)
    (hover : ¬ Overwrites (labels.map Label.name) t.name) :
    KeepsEach raw (done ++ [t]) (mergeTargetLabel false labels t) := by
  have hunique := UniqueNames.mergeTargetLabel h.unique false t
  rcases mergeTargetLabel_cases labels t with ⟨habsent, heq⟩ | ⟨old, hold, hname, heq⟩
  · rw [heq] at hunique ⊢
    exact h.append habsent hunique
  · have hexported : exportedLabelPrefix ++ t.name ∉ labels.map Label.name :=
      fun hmem => hover ⟨List.mem_map.mpr ⟨old, hold, hname⟩, hmem⟩
    rw [heq] at hunique ⊢
    exact h.displace hfresh hold hname hexported hunique

theorem KeepsEach.mergeTargetLabels {done : List Label} (h : KeepsEach raw done labels)
    (hunique : UniqueNames (done ++ targets))
    (hno : NoOverwrite (labels.map Label.name) (targets.map Label.name)) :
    KeepsEach raw (done ++ targets) (mergeTargetLabels labels targets false) := by
  induction targets generalizing labels done with
  | nil => rwa [List.append_nil]
  | cons t rest ih =>
      obtain ⟨hover, hrest⟩ := hno
      have hfresh : t.name ∉ done.map Label.name := by
        intro hmem
        exact (Keyed.unique_append.mp hunique).2.2 _ hmem List.mem_cons_self
      have hstep := h.mergeTargetLabel hfresh hover
      rw [List.append_cons] at hunique ⊢
      refine ih hstep hunique ((noOverwrite_congr fun name => ?_).mp hrest)
      rw [mem_names_mergeTargetLabel, List.mem_cons]

/-! ## When something is overwritten -/

/-- `name` with none to `k - 1` prefixes. -/
def exportedChain : ℕ → String → List String
  | 0, _ => []
  | k + 1, name => name :: exportedChain k (exportedLabelPrefix ++ name)

/-- A scraped label that target labels `name`, `exported_name`, … move on in turn lands on a name that
    another scraped label has, or a target label merged before the last of them. -/
def Clobbers (names targetNames : List String) : Prop :=
  ∃ name ∈ names, ∃ k, (exportedChain (k + 1) name).Sublist targetNames ∧
    (exportedName (k + 1) name ∈ names ∨
      [exportedName (k + 1) name, exportedName k name].Sublist targetNames)

theorem exportedName_mem_chain (k : ℕ) (name : String) :
    exportedName k name ∈ exportedChain (k + 1) name := by
  induction k generalizing name with
  | zero => exact List.mem_singleton_self _
  | succ k ih =>
      rw [← exportedName_exported]
      exact List.mem_cons_of_mem _ (ih _)

theorem Clobbers.of_cons {taken rest : List String} {t : String} (hfresh : t ∉ rest)
    (h : Clobbers taken (t :: rest)) :
    Overwrites taken t ∨ Clobbers (addedName taken t :: taken) rest := by
  obtain ⟨n, hn, k, hchain, hland⟩ := h
  rcases List.cons_sublist_cons'.mp hchain with hchain | ⟨rfl, htail⟩
  · -- the chain does not start here
    refine .inr ⟨n, List.mem_cons_of_mem _ hn, k, hchain, ?_⟩
    rcases hland with hland | hland
    · exact .inl (List.mem_cons_of_mem _ hland)
    · rcases List.cons_sublist_cons'.mp hland with hland | ⟨heq, -⟩
      · exact .inr hland
      · left
        rw [heq, List.mem_cons, addedName]
        by_cases ht : t ∈ taken
        · exact .inr ht
        · exact .inl (if_neg ht).symm
  · have hadded : addedName taken n = exportedLabelPrefix ++ n := if_pos hn
    have hland' : exportedName (k + 1) n ∈ taken ∨
        [exportedName (k + 1) n, exportedName k n].Sublist rest := by
      rcases hland with hland | hland
      · exact .inl hland
      · rcases List.cons_sublist_cons'.mp hland with hland | ⟨heq, -⟩
        · exact .inr hland
        · exact absurd heq (exportedName_ne k n)
    cases k with
    | zero =>
        rcases hland' with hland | hland
        · exact .inl ⟨hn, hland⟩
        · exact absurd (hland.subset (by simp)) hfresh
    | succ k =>
        refine .inr ⟨exportedLabelPrefix ++ n, by rw [hadded]; exact List.mem_cons_self, k, htail,
          ?_⟩
        rw [exportedName_exported, exportedName_exported]
        exact hland'.imp_left (List.mem_cons_of_mem _)

/-- A chain in the rest goes on through `t` if `t` moves its scraped label there. -/
theorem Clobbers.cons_of_mem {taken rest : List String} {t : String} (hfresh : t ∉ rest)
    (ht : t ∈ taken) (h : Clobbers ((exportedLabelPrefix ++ t) :: taken) rest) :
    Clobbers taken (t :: rest) := by
  obtain ⟨n, hn, k, hchain, hland⟩ := h
  have hrest := hchain.subset (exportedName_mem_chain _ _)
  have hland' : exportedName (k + 1) n ∈ taken ∨
      [exportedName (k + 1) n, exportedName k n].Sublist rest := by
    rcases hland with hland | hland
    · rcases List.mem_cons.mp hland with heq | hland
      · rw [exportedName_succ] at heq
        exact absurd (exported_injective heq ▸ hrest) hfresh
      · exact .inl hland
    · exact .inr hland
  rcases List.mem_cons.mp hn with rfl | hn
  · refine ⟨t, ht, k + 1, hchain.cons_cons t, ?_⟩
    rw [exportedName_exported, exportedName_exported] at hland'
    exact hland'.imp_right (List.Sublist.cons t)
  · exact ⟨n, hn, k, hchain.cons t, hland'.imp_right (List.Sublist.cons t)⟩

theorem Clobbers.cons_of_not_mem {taken rest : List String} {t : String} (hfresh : t ∉ rest)
    (h : Clobbers (t :: taken) rest) : Clobbers taken (t :: rest) := by
  obtain ⟨n, hn, k, hchain, hland⟩ := h
  have hrest := hchain.subset (exportedName_mem_chain _ _)
  rcases List.mem_cons.mp hn with rfl | hn
  · exact absurd (hchain.subset List.mem_cons_self) hfresh
  · refine ⟨n, hn, k, hchain.cons t, ?_⟩
    rcases hland with hland | hland
    · rcases List.mem_cons.mp hland with rfl | hland
      · exact .inr ((List.singleton_sublist.mpr hrest).cons_cons _)
      · exact .inl hland
    · exact .inr (hland.cons t)

theorem clobbers_cons_iff {taken rest : List String} {t : String} (hnodup : (t :: rest).Nodup) :
    Clobbers taken (t :: rest) ↔
      Overwrites taken t ∨ Clobbers (addedName taken t :: taken) rest := by
  obtain ⟨hfresh, -⟩ := List.nodup_cons.mp hnodup
  constructor
  · exact Clobbers.of_cons hfresh
  · rintro (⟨ht, hexported⟩ | h)
    · exact ⟨t, ht, 0, (List.nil_sublist rest).cons_cons t, .inl hexported⟩
    · by_cases ht : t ∈ taken
      · rw [addedName, if_pos ht] at h
        exact h.cons_of_mem hfresh ht
      · rw [addedName, if_neg ht] at h
        exact h.cons_of_not_mem hfresh

/-- **The names alone tell whether something is overwritten.** -/
theorem noOverwrite_iff_not_clobbers {taken targetNames : List String}
    (hnodup : targetNames.Nodup) : NoOverwrite taken targetNames ↔ ¬ Clobbers taken targetNames := by
  induction targetNames generalizing taken with
  | nil =>
      refine iff_of_true trivial ?_
      rintro ⟨n, -, k, hchain, -⟩
      cases hchain
  | cons t rest ih =>
      rw [NoOverwrite, ih (List.nodup_cons.mp hnodup).2, clobbers_cons_iff hnodup, not_or]

/-- **Merging without `honor_labels` keeps each label exactly when nothing is clobbered.** Then it loses
    nothing, and where no two labels share a value that is the only way to lose nothing. -/
theorem mergeTargetLabels_keepsEach_iff (hraw : UniqueNames raw) (htargets : UniqueNames targets) :
    (KeepsEach raw targets (mergeTargetLabels raw targets false) ↔
        ¬ Clobbers (raw.map Label.name) (targets.map Label.name)) ∧
      (¬ Clobbers (raw.map Label.name) (targets.map Label.name) →
        LosesNothing raw targets (mergeTargetLabels raw targets false)) ∧
      (DistinctValues raw targets →
        LosesNothing raw targets (mergeTargetLabels raw targets false) →
        ¬ Clobbers (raw.map Label.name) (targets.map Label.name)) := by
  have hiff : KeepsEach raw targets (mergeTargetLabels raw targets false) ↔
      ¬ Clobbers (raw.map Label.name) (targets.map Label.name) := by
    rw [← noOverwrite_iff_not_clobbers htargets]
    constructor
    · intro h
      exact (length_mergeTargetLabels raw targets).2.mp (h.length_le htargets)
    · intro h
      exact (keepsEach_nil hraw).mergeTargetLabels htargets h
  exact ⟨hiff, fun h => (hiff.mpr h).losesNothing, fun hvalues h => hiff.mp (h.keepsEach hvalues)⟩

/-- One conflict and no `exported_` label. -/
theorem mergeTargetLabels_keepsEach_conflict :
    KeepsEach [⟨"__name__", "m"⟩, ⟨"job", "scraped"⟩] [⟨"instance", "i"⟩, ⟨"job", "target"⟩]
      (mergeTargetLabels [⟨"__name__", "m"⟩, ⟨"job", "scraped"⟩]
        [⟨"instance", "i"⟩, ⟨"job", "target"⟩] false) := by
  refine (mergeTargetLabels_keepsEach_iff (by decide) (by decide)).1.mpr ?_
  rw [← noOverwrite_iff_not_clobbers (by decide)]
  simp [NoOverwrite, Overwrites, addedName, exportedLabelPrefix]

/-- **A scraped `exported_job` is lost** when the target has a `job` label too. -/
theorem mergeTargetLabels_loses :
    ¬ ∀ raw targets : List Label, UniqueNames raw → UniqueNames targets →
      LosesNothing raw targets (mergeTargetLabels raw targets false) := by
  intro h
  have hlost := (h [⟨"job", "a"⟩, ⟨"exported_job", "b"⟩] [⟨"job", "t"⟩] (by decide)
    (by decide)).keepsScraped ⟨"exported_job", "b"⟩ (by simp)
  have hmerged : mergeTargetLabels [⟨"job", "a"⟩, ⟨"exported_job", "b"⟩] [⟨"job", "t"⟩] false =
      [⟨"job", "t"⟩, ⟨"exported_job", "a"⟩] := by decide
  rw [hmerged] at hlost
  simp at hlost

end PromScrape
