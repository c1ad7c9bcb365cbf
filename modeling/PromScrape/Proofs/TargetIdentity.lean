import PromScrape.Proofs.Relabel
import PromScrape.Proofs.Targets

set_option autoImplicit false

/-! # Target identity

`Target::identity` hashes URL, parameters and labels as one flat sequence of strings. Even where the
hash keeps distinct sequences apart, the sequence does not say where the parameters end: the first
labels of one target can be the last parameters of another. That is the only way two different
targets of a job come to share an identity, and then only one of them is scraped. -/

namespace PromScrape

open Utf8 (utf8Bytes)
open Regex (Engine)

variable {E : Engine}

/-! ## The writes behind an identity -/

/-- Parameters, then labels: what is hashed after the URL. -/
def Target.pairs (target : Target E) : List (String × String) :=
  target.params ++ target.labels.map fun l => (l.name, l.value)

/-- The strings that `Target::identity` writes, in order. -/
def Target.writes (target : Target E) : List String :=
  target.url :: target.pairs.flatMap fun p => [p.1, p.2]

theorem hashLabelsInto_eq (hasher : FxHasher) (labels : List Label) :
    hashLabelsInto hasher labels = (labels.map fun l => (l.name, l.value)).foldl
      (fun h p => (h.write (utf8Bytes p.1)).write (utf8Bytes p.2)) hasher := by
  rw [hashLabelsInto, List.foldl_map]

/-- The identity is the hash of the writes. -/
theorem Target.identity_eq (target : Target E) :
    target.identity =
      (target.writes.foldl (fun h s => h.write (utf8Bytes s)) FxHasher.default).finish := by
  have hpairs : ∀ (ps : List (String × String)) (h : FxHasher),
      (ps.flatMap fun p => [p.1, p.2]).foldl (fun h s => h.write (utf8Bytes s)) h =
        ps.foldl (fun h p => (h.write (utf8Bytes p.1)).write (utf8Bytes p.2)) h := by
    intro ps
    induction ps with
    | nil => intro h; rfl
    | cons p rest ih =>
        intro h
        rw [List.flatMap_cons, List.foldl_append, ih]
        simp only [List.foldl_cons, List.foldl_nil]
  rw [Target.identity, hashLabelsInto_eq, Target.writes, List.foldl_cons, hpairs, Target.pairs,
    List.foldl_append]

/-- Pairs can be read off the flat sequence. -/
theorem flatMap_pair_injective {ps qs : List (String × String)}
    (h : (ps.flatMap fun p => [p.1, p.2]) = qs.flatMap fun p => [p.1, p.2]) : ps = qs := by
  induction ps generalizing qs with
  | nil =>
      cases qs with
      | nil => rfl
      | cons q qs => cases h
  | cons p ps ih =>
      cases qs with
      | nil => cases h
      | cons q qs =>
          obtain ⟨hname, hrest⟩ := List.cons.inj h
          obtain ⟨hvalue, hrest⟩ := List.cons.inj hrest
          rw [Prod.ext hname hvalue, ih hrest]

theorem labels_eq_of_pairs {labels labels' : List Label}
    (h : labels.map (fun l => (l.name, l.value)) = labels'.map fun l => (l.name, l.value)) :
    labels = labels' := by
  refine List.map_injective_iff.mpr ?_ h
  rintro ⟨name, value⟩ ⟨name', value'⟩ heq
  cases heq
  rfl

/-! ## Sources and splices -/

/-- The same series source: equal URL, parameters and final labels. -/
def SameSource (a b : Target E) : Prop := a.url = b.url ∧ a.params = b.params ∧ a.labels = b.labels

/-- Equal URLs, but the last parameters of `b` are the first labels of `a`, the other parameters
    those of `a`, and the other labels those of `b`. -/
def Spliced (a b : Target E) : Prop :=
  a.url = b.url ∧ ∃ moved : List Label, moved ≠ [] ∧
    b.params = a.params ++ moved.map (fun l => (l.name, l.value)) ∧ a.labels = moved ++ b.labels

theorem Spliced.writes_eq {a b : Target E} (h : Spliced a b) : a.writes = b.writes := by
  obtain ⟨hurl, moved, -, hparams, hlabels⟩ := h
  rw [Target.writes, Target.writes, Target.pairs, Target.pairs, hurl, hparams, hlabels,
    List.map_append, List.append_assoc]

theorem Spliced.not_sameSource {a b : Target E} (h : Spliced a b) : ¬ SameSource a b := by
  obtain ⟨-, moved, hne, hparams, -⟩ := h
  rintro ⟨-, hsame, -⟩
  rw [hsame] at hparams
  have hmoved := List.self_eq_append_right.mp hparams
  exact hne (List.map_eq_nil_iff.mp hmoved)

theorem spliced_or_of_length {a b : Target E} (hurl : a.url = b.url) (hpairs : a.pairs = b.pairs)
    (hlength : a.params.length ≤ b.params.length) : SameSource a b ∨ Spliced a b := by
  rw [Target.pairs, Target.pairs] at hpairs
  have hprefix : a.params <+: b.params :=
    List.prefix_of_prefix_length_le (hpairs ▸ List.prefix_append _ _) (List.prefix_append _ _)
      hlength
  obtain ⟨moved, hparams⟩ := hprefix
  rw [← hparams, List.append_assoc, List.append_cancel_left_eq] at hpairs
  obtain ⟨front, back, hlabels, hfront, hback⟩ := List.map_eq_append_iff.mp hpairs
  have hback := labels_eq_of_pairs hback
  cases front with
  | nil =>
      rw [← hfront, List.map_nil, List.append_nil] at hparams
      exact .inl ⟨hurl, hparams, by rw [hlabels, hback, List.nil_append]⟩
  | cons l front =>
      exact .inr ⟨hurl, l :: front, List.cons_ne_nil _ _, by rw [← hparams, hfront],
        by rw [hlabels, hback]⟩

/-- **Equal writes are an equal source or a splice.** -/
theorem writes_eq_iff {a b : Target E} :
    a.writes = b.writes ↔ SameSource a b ∨ Spliced a b ∨ Spliced b a := by
  constructor
  · intro h
    obtain ⟨hurl, hflat⟩ := List.cons.inj h
    have hpairs := flatMap_pair_injective hflat
    rcases Nat.le_total a.params.length b.params.length with hlength | hlength
    · exact (spliced_or_of_length hurl hpairs hlength).imp_right .inl
    · rcases spliced_or_of_length hurl.symm hpairs.symm hlength with hsame | hspliced
      · exact .inl ⟨hsame.1.symm, hsame.2.1.symm, hsame.2.2.symm⟩
      · exact .inr (.inr hspliced)
  · rintro (⟨hurl, hparams, hlabels⟩ | h | h)
    · rw [Target.writes, Target.writes, Target.pairs, Target.pairs, hurl, hparams, hlabels]
    · exact h.writes_eq
    · exact h.writes_eq.symm

/-! ## Targets of one job -/

/-- The hash keeps the write sequences of these targets apart. -/
def HashesApart (targets : List (Target E)) : Prop :=
  ∀ a ∈ targets, ∀ b ∈ targets, a.identity = b.identity → a.writes = b.writes

/-- Equal identities mean equal sources. -/
def IdentityInjective (targets : List (Target E)) : Prop :=
  ∀ a ∈ targets, ∀ b ∈ targets, a.identity = b.identity → SameSource a b

def NoSplice (targets : List (Target E)) : Prop :=
  ∀ a ∈ targets, ∀ b ∈ targets, ¬ Spliced a b

theorem identityInjective_iff {targets : List (Target E)} (hhash : HashesApart targets) :
    IdentityInjective targets ↔ NoSplice targets := by
  constructor
  · intro h a ha b hb hspliced
    have hidentity : a.identity = b.identity := by
      rw [a.identity_eq, b.identity_eq, hspliced.writes_eq]
    exact hspliced.not_sameSource (h a ha b hb hidentity)
  · intro h a ha b hb hidentity
    rcases writes_eq_iff.mp (hhash a ha b hb hidentity) with hsame | hspliced | hspliced
    · exact hsame
    · exact absurd hspliced (h a ha b hb)
    · exact absurd hspliced (h b hb a ha)

section

variable {deps : RelabelDeps} {job : ScrapeConfig deps.engine} {global : GlobalConfig}
  {externalLabels : List Label} {trackStaleness : Bool}

/-- The job decides the rest of a target. -/
theorem Target.OfJob.eq_of_sameSource {a b : Target deps.engine}
    (ha : a.OfJob job global externalLabels trackStaleness)
    (hb : b.OfJob job global externalLabels trackStaleness) (hsame : SameSource a b) : a = b := by
  obtain ⟨hurl, hparams, hlabels⟩ := hsame
  rw [ha.settings, hb.settings, hurl, hparams, hlabels]

/-- **When identities tell the targets of a job apart**, and with it, when collecting the targets by
identity keeps every one of them: exactly when no target is a splice of another. -/
theorem buildTargets_identity_iff {groups : List TargetGroup} {targets : List (Target deps.engine)}
    (h : buildTargets deps job global externalLabels trackStaleness groups = .ok targets)
    (hhash : HashesApart targets) :
    (IdentityInjective targets ↔ NoSplice targets) ∧
      ((∀ target ∈ targets, (target.identity, target) ∈ desiredTargets targets) ↔
        NoSplice targets) := by
  refine ⟨identityInjective_iff hhash, ?_⟩
  have hkept : (∀ target ∈ targets, (target.identity, target) ∈ desiredTargets targets) ↔
      ∀ u ∈ targets.map fun target => (target.identity, target),
        u ∈ Keyed.upsertAll Prod.fst (targets.map fun target => (target.identity, target)) [] :=
    List.forall_mem_map.symm
  rw [hkept, Keyed.forall_mem_upsertAll_iff, ← identityInjective_iff hhash]
  simp only [List.forall_mem_map]
  have hall := buildTargets_ofJob h
  constructor
  · intro hinj a ha b hb hidentity
    obtain rfl := (Prod.mk.inj (hinj a ha b hb hidentity)).2
    exact ⟨rfl, rfl, rfl⟩
  · intro hinj a ha b hb hidentity
    rw [(hall a ha).eq_of_sameSource (hall b hb) (hinj a ha b hb hidentity)]

end

instance decidableHashesApart (targets : List (Target E)) : Decidable (HashesApart targets) :=
  inferInstanceAs (Decidable (∀ a ∈ targets, ∀ b ∈ targets, a.identity = b.identity →
    a.writes = b.writes))

instance decidableIdentityInjective (targets : List (Target E)) :
    Decidable (IdentityInjective targets) :=
  inferInstanceAs (Decidable (∀ a ∈ targets, ∀ b ∈ targets, a.identity = b.identity →
    a.url = b.url ∧ a.params = b.params ∧ a.labels = b.labels))

def nodeJob : ScrapeConfig fragmentDeps.engine where
  jobName := "node"

def twoHosts : List TargetGroup :=
  [⟨["a:9100", "b:9100"], { entries := [("env", "prod")] }⟩]

theorem buildTargets_identity_iff_twoHosts :
    ∃ targets, buildTargets fragmentDeps nodeJob {} [] false twoHosts = .ok targets ∧
      targets.length = 2 ∧ HashesApart targets ∧ (IdentityInjective targets ↔ NoSplice targets) := by
  obtain ⟨targets, htargets, hcheck⟩ := Fallible.exists_ok_of_any
    (x := buildTargets fragmentDeps nodeJob {} [] false twoHosts)
    (p := fun targets => targets.length = 2 && decide (HashesApart targets)) (by decide +kernel)
  obtain ⟨hlength, hhash⟩ := (Bool.and_eq_true _ _).mp hcheck
  have hhash : HashesApart targets := of_decide_eq_true hhash
  exact ⟨targets, htargets, of_decide_eq_true hlength, hhash,
    (buildTargets_identity_iff htargets hhash).1⟩

/-- One address in two groups; what is a label in the first is a parameter in the second. -/
def splicedGroups : List TargetGroup :=
  [⟨["h:1"], { entries := [("a", "1")] }⟩, ⟨["h:1"], { entries := [("__param_a", "1")] }⟩]

/-- **Two targets, one identity**: equal writes, other parameters and labels, and the first target is
    lost when the targets are collected. -/
theorem buildTargets_identity_spliced :
    ∃ targets, buildTargets fragmentDeps nodeJob {} [] false splicedGroups = .ok targets ∧
      HashesApart targets ∧ ¬ IdentityInjective targets ∧
      ∃ lost ∈ targets, ∀ kept ∈ desiredTargets targets,
        kept.2.params ≠ lost.params ∧ kept.2.labels ≠ lost.labels := by
  obtain ⟨targets, htargets, hcheck⟩ := Fallible.exists_ok_of_any
    (x := buildTargets fragmentDeps nodeJob {} [] false splicedGroups)
    (p := fun targets => decide (HashesApart targets ∧ ¬ IdentityInjective targets ∧
      ∃ lost ∈ targets, ∀ kept ∈ desiredTargets targets,
        kept.2.params ≠ lost.params ∧ kept.2.labels ≠ lost.labels)) (by decide +kernel)
  exact ⟨targets, htargets, of_decide_eq_true hcheck⟩

end PromScrape
