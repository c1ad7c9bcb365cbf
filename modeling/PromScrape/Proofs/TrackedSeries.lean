import PromScrape.Implementation.TrackedSeries

set_option autoImplicit false

/-! # The gauge counts the tracked series

A tracker's contribution to the gauge is what it reported last; every step adds to the gauge exactly
what it adds to a contribution, so in all interleavings the gauge is the sum of the contributions, and
a tracker only ever takes back what it put in. Where no operation is under way the contributions are
the sizes. -/

namespace PromScrape

open Trackers

/-! ## What an event does to its tracker -/

/-- The moves of one tracker: what becomes of it, and what the move does on the gauge. -/
inductive GaugedTracker.Moves (t : GaugedTracker) : Option GaugedTracker → Option GaugeOp → Prop where
  | start (tracker : SeriesTracker) (phase : TrackerPhase) : t.phase = .idle →
      phase = .changed ∨ phase = .unwinding →
      Moves t (some { t with tracker := tracker, phase := phase }) none
  | count : t.phase = .changed →
      Moves t (some { t with phase := .counted t.now }) (some t.updateOp)
  | store (now : UInt64) : t.phase = .counted now →
      Moves t (some { t with trackedReported := now, phase := .idle }) none
  | drop : t.phase = .idle ∨ t.phase = .unwinding →
      Moves t none (some (.sub t.trackedReported))

namespace Trackers

variable {deps : ScrapeDeps}

/-- The event does nothing, or is a move of the tracker in slot `i`. -/
def MovesAt (s : Trackers) (e : TrackerEvent deps) (i : Nat) : Prop :=
  (s.step e = s ∧ s.gaugeOp e = none) ∨
    ∃ t slot, s.get? i = some t ∧ t.Moves slot (s.gaugeOp e) ∧
      s.step e = (s.set i slot).operate (s.gaugeOp e)

theorem advance_movesAt (s : Trackers) (i : Nat) (target : Target deps.relabel.engine)
    (batch : List TimeSeries) (retainedBody : Option ScrapeBody) (startMs : Int64) :
    s.MovesAt (.advance i target batch retainedBody startMs : TrackerEvent deps) i := by
  unfold MovesAt step
  simp only [change, gaugeOp]
  cases hget : s.get? i with
  | none => exact .inl ⟨rfl, trivial⟩
  | some t =>
      by_cases hphase : t.phase = .idle
      · refine .inr ⟨t, ?_⟩
        simp only [if_pos hphase]
        cases t.tracker.advance deps target batch retainedBody startMs with
        | ok advanced => exact ⟨_, trivial, .start advanced.2 .changed hphase (.inl rfl), rfl⟩
        | error panic => exact ⟨_, trivial, .start t.tracker .unwinding hphase (.inr rfl), rfl⟩
      · simp only [if_neg hphase]
        exact .inl ⟨rfl, trivial⟩

theorem drainAll_movesAt (s : Trackers) (i : Nat) (target : Target deps.relabel.engine)
    (timestamp : Int64) : s.MovesAt (.drainAll i target timestamp : TrackerEvent deps) i := by
  unfold MovesAt step
  simp only [change, gaugeOp]
  cases hget : s.get? i with
  | none => exact .inl ⟨rfl, trivial⟩
  | some t =>
      by_cases hphase : t.phase = .idle
      · refine .inr ⟨t, ?_⟩
        simp only [if_pos hphase]
        cases t.tracker.drainAll deps target timestamp with
        | ok drained => exact ⟨_, trivial, .start drained.2 .changed hphase (.inl rfl), rfl⟩
        | error panic => exact ⟨_, trivial, .start _ .unwinding hphase (.inr rfl), rfl⟩
      · simp only [if_neg hphase]
        exact .inl ⟨rfl, trivial⟩

theorem updateGauge_movesAt (s : Trackers) (i : Nat) :
    s.MovesAt (.updateGauge i : TrackerEvent deps) i := by
  unfold MovesAt step
  simp only [change, gaugeOp]
  cases hget : s.get? i with
  | none => exact .inl ⟨rfl, rfl⟩
  | some t =>
      by_cases hphase : t.phase = .changed
      · simp only [Option.bind_some, if_pos hphase]
        exact .inr ⟨t, _, rfl, .count hphase, rfl⟩
      · simp only [Option.bind_some, if_neg hphase]
        exact .inl ⟨rfl, trivial⟩

theorem store_movesAt (s : Trackers) (i : Nat) : s.MovesAt (.store i : TrackerEvent deps) i := by
  unfold MovesAt step
  simp only [change, gaugeOp]
  cases hget : s.get? i with
  | none => exact .inl ⟨rfl, trivial⟩
  | some t =>
      cases hphase : t.phase with
      | counted now => exact .inr ⟨t, _, rfl, .store now hphase, by simp only [hphase]⟩
      | idle => exact .inl ⟨by simp only [hphase]; rfl, trivial⟩
      | changed => exact .inl ⟨by simp only [hphase]; rfl, trivial⟩
      | unwinding => exact .inl ⟨by simp only [hphase]; rfl, trivial⟩

theorem drop_movesAt (s : Trackers) (i : Nat) : s.MovesAt (.drop i : TrackerEvent deps) i := by
  unfold MovesAt step
  simp only [change, gaugeOp]
  cases hget : s.get? i with
  | none => exact .inl ⟨rfl, rfl⟩
  | some t =>
      by_cases hphase : t.phase = .idle ∨ t.phase = .unwinding
      · simp only [Option.bind_some, if_pos hphase]
        exact .inr ⟨t, _, rfl, .drop hphase, rfl⟩
      · simp only [Option.bind_some, if_neg hphase]
        exact .inl ⟨rfl, trivial⟩

/-- **Every event does nothing, makes a tracker, or is a move of one.** -/
theorem step_cases (s : Trackers) (e : TrackerEvent deps) :
    (s.step e = s ∧ s.gaugeOp e = none) ∨
    (s.step e = { s with slots := s.slots ++ [some { tracker := .default }] } ∧
      s.gaugeOp e = none) ∨
    ∃ i t slot, s.get? i = some t ∧ t.Moves slot (s.gaugeOp e) ∧
      s.step e = (s.set i slot).operate (s.gaugeOp e) := by
  cases e with
  | create => exact .inr (.inl ⟨rfl, rfl⟩)
  | advance i target batch retainedBody startMs =>
      exact (s.advance_movesAt i target batch retainedBody startMs).imp_right fun h => .inr ⟨i, h⟩
  | drainAll i target timestamp =>
      exact (s.drainAll_movesAt i target timestamp).imp_right fun h => .inr ⟨i, h⟩
  | updateGauge i => exact (s.updateGauge_movesAt i).imp_right fun h => .inr ⟨i, h⟩
  | store i => exact (s.store_movesAt i).imp_right fun h => .inr ⟨i, h⟩
  | drop i => exact (s.drop_movesAt i).imp_right fun h => .inr ⟨i, h⟩

end Trackers

/-! ## Contributions -/

namespace GaugedTracker

/-- What the tracker has put into the gauge. -/
def contribution (t : GaugedTracker) : ℤ :=
  match t.phase with
  | .counted now => now.toNat
  | _ => t.trackedReported.toNat

theorem contribution_nonneg (t : GaugedTracker) : 0 ≤ t.contribution := by
  unfold contribution
  split <;> exact Int.natCast_nonneg _

/-- What was counted is the size, and without an operation under way so is what was reported. -/
def Consistent (t : GaugedTracker) : Prop :=
  match t.phase with
  | .idle => t.trackedReported = t.now
  | .counted now => now = t.now
  | _ => True

theorem contribution_of_phase {t : GaugedTracker} (h : ∀ now, t.phase ≠ .counted now) :
    t.contribution = t.trackedReported.toNat := by
  unfold contribution
  split
  · next now hphase => exact absurd hphase (h now)
  · rfl

theorem updateOp_amount (t : GaugedTracker) :
    t.updateOp.amount = (t.now.toNat : ℤ) - t.trackedReported.toNat := by
  unfold updateOp
  split
  · next h =>
      have hle := UInt64.le_iff_toNat_le.mp h
      rw [GaugeOp.amount, UInt64.toNat_sub_of_le _ _ h]
      omega
  · next h =>
      have hlt := UInt64.not_le.mp h
      have hle := UInt64.le_iff_toNat_le.mp (UInt64.le_of_lt hlt)
      rw [GaugeOp.amount, UInt64.toNat_sub_of_le _ _ (UInt64.le_of_lt hlt)]
      omega

/-- **A move changes the gauge and the contribution alike.** -/
theorem Moves.contribution_eq {t : GaugedTracker} {slot : Option GaugedTracker} {op : Option GaugeOp}
    (h : t.Moves slot op) :
    slot.elim 0 contribution = t.contribution + op.elim 0 GaugeOp.amount := by
  cases h with
  | start tracker phase hphase hnext =>
      rw [contribution_of_phase (t := t) (by simp [hphase])]
      rcases hnext with rfl | rfl <;> simp [contribution]
  | count hphase =>
      rw [contribution_of_phase (t := t) (by simp [hphase])]
      simp [contribution, updateOp_amount]
  | store now hphase => simp [contribution, hphase]
  | drop hphase =>
      rw [contribution_of_phase (t := t) (by rcases hphase with h | h <;> simp [h])]
      simp [GaugeOp.amount]

/-- A move never takes more than the tracker has put in. -/
theorem Moves.sub_le {t : GaugedTracker} {slot : Option GaugedTracker} {delta : UInt64}
    (h : t.Moves slot (some (.sub delta))) : (delta.toNat : ℤ) ≤ t.contribution := by
  have hmove := h.contribution_eq
  have hslot : 0 ≤ slot.elim 0 contribution := by
    cases slot with
    | none => exact le_refl 0
    | some t' => exact contribution_nonneg t'
  simp only [Option.elim_some, GaugeOp.amount] at hmove
  omega

theorem Moves.consistent {t t' : GaugedTracker} {op : Option GaugeOp} (h : t.Moves (some t') op)
    (ht : t.Consistent) : t'.Consistent := by
  cases h with
  | start tracker phase hphase hnext => rcases hnext with rfl | rfl <;> trivial
  | count hphase => rfl
  | store now hphase =>
      rw [Consistent, hphase] at ht
      exact ht

end GaugedTracker

/-! ## All interleavings -/

/-- The gauge is the sum of the contributions, as an integer and modulo `2 ^ 64`. -/
structure GaugeInv (s : Trackers) : Prop where
  exact : s.exact = Slots.total GaugedTracker.contribution s.slots
  gauge : (s.gauge.get.toNat : ℤ) = s.exact % 2 ^ 64
  consistent : ∀ t ∈ s.live, t.Consistent

theorem GaugeOp.apply_get (op : GaugeOp) (gauge : Telemetry.Value) :
    ((op.apply gauge).get.toNat : ℤ) = ((gauge.get.toNat : ℤ) + op.amount) % 2 ^ 64 := by
  cases op with
  | add delta =>
      rw [GaugeOp.apply, GaugeOp.amount, Telemetry.Value.get, Telemetry.Value.add,
        Telemetry.Value.get, UInt64.toNat_add]
      omega
  | sub delta =>
      have hdelta := delta.toNat_lt
      have hgauge := gauge.bits.toNat_lt
      rw [GaugeOp.apply, GaugeOp.amount, Telemetry.Value.get, Telemetry.Value.sub,
        Telemetry.Value.get, UInt64.toNat_sub]
      omega

theorem getElem?_of_get? {s : Trackers} {i : Nat} {t : GaugedTracker} (h : s.get? i = some t) :
    s.slots[i]? = some (some t) := Option.join_eq_some_iff.mp h

theorem GaugeInv.step {deps : ScrapeDeps} {s : Trackers} (h : GaugeInv s) (e : TrackerEvent deps) :
    GaugeInv (s.step e) := by
  rcases s.step_cases e with ⟨hstep, -⟩ | ⟨hstep, -⟩ | ⟨i, t, slot, hget, hmoves, hstep⟩
  · rw [hstep]
    exact h
  · rw [hstep]
    refine ⟨?_, h.gauge, ?_⟩
    · rw [Slots.total_append_singleton]
      simpa [GaugedTracker.contribution] using h.exact
    · intro t ht
      rcases List.mem_append.mp (Slots.mem_live.mp ht) with ht | ht
      · exact h.consistent t (Slots.mem_live.mpr ht)
      · cases List.mem_singleton.mp ht
        rfl
  · rw [hstep]
    have hslot := getElem?_of_get? hget
    have htotal := Slots.total_set (f := GaugedTracker.contribution) hslot slot
    rw [hmoves.contribution_eq] at htotal
    have hlive : ∀ t' ∈ (s.set i slot).live, t'.Consistent := by
      intro t' ht'
      rcases Slots.mem_set (Slots.mem_live.mp ht') with heq | hmem
      · subst heq
        exact hmoves.consistent (h.consistent t (Slots.mem_live.mpr (List.mem_of_getElem? hslot)))
      · exact h.consistent t' (Slots.mem_live.mpr hmem)
    cases hop : s.gaugeOp e with
    | none =>
        rw [hop] at htotal
        refine ⟨?_, h.gauge, hlive⟩
        change s.exact = Slots.total GaugedTracker.contribution (s.slots.set i slot)
        rw [htotal, h.exact, Option.elim_none]
        ring
    | some op =>
        rw [hop] at htotal
        refine ⟨?_, ?_, hlive⟩
        · change s.exact + op.amount = Slots.total GaugedTracker.contribution (s.slots.set i slot)
          rw [htotal, h.exact, Option.elim_some]
          ring
        · change ((op.apply s.gauge).get.toNat : ℤ) = (s.exact + op.amount) % 2 ^ 64
          rw [op.apply_get, h.gauge]
          omega

theorem gaugeInv_after {deps : ScrapeDeps} (events : List (TrackerEvent deps)) :
    GaugeInv (Trackers.after events) :=
  Transition.run_invariant (fun _ e h => h.step e) ⟨rfl, rfl, by simp [Trackers.live, Slots.live]⟩
    events

/-- Without operations under way, the contributions are the sizes. -/
theorem GaugeInv.gauge_of_quiescent {s : Trackers} (h : GaugeInv s) (hquiescent : s.Quiescent) :
    s.gauge.get = UInt64.ofNat (s.live.map fun t => t.tracker.hashes.length).sum := by
  have hparts : s.exact ≡ Slots.total (fun t => (t.tracker.hashes.length : ℤ)) s.slots
      [ZMOD 2 ^ 64] := by
    rw [h.exact]
    refine Slots.total_modEq fun t ht => ?_
    have hlive := Slots.mem_live.mpr ht
    have hphase := hquiescent t hlive
    have hconsistent := h.consistent t hlive
    rw [GaugedTracker.Consistent, hphase] at hconsistent
    rw [GaugedTracker.contribution_of_phase (by simp [hphase]), hconsistent, GaugedTracker.now,
      UInt64.toNat_ofNat', Int.ModEq]
    omega
  rw [Slots.total_eq_live] at hparts
  have hsum : ((Slots.live s.slots).map fun t => (t.tracker.hashes.length : ℤ)).sum =
      ((s.live.map fun t => t.tracker.hashes.length).sum : ℕ) := by
    rw [Trackers.live]
    induction Slots.live s.slots with
    | nil => rfl
    | cons t ts ih =>
        rw [List.map_cons, List.sum_cons, ih, List.map_cons, List.sum_cons, Nat.cast_add]
  rw [hsum] at hparts
  rw [← UInt64.toNat_inj, UInt64.toNat_ofNat']
  have hgauge := h.gauge
  rw [Int.ModEq] at hparts
  omega

/-- **The tracked-series gauge.** After any schedule of creations, advances, drains and drops: when
    every operation has finished, the gauge is the number of hashes that the live trackers hold
    (modulo `2 ^ 64`, as any `u64`); what was added less what was subtracted is never negative, and is
    what the gauge holds modulo `2 ^ 64`; and a subtraction takes no more than that, so, as long as
    fewer than `2 ^ 64` series are counted, no more than the gauge holds. -/
theorem trackedSeries_gauge {deps : ScrapeDeps} (events : List (TrackerEvent deps)) :
    ((Trackers.after events).Quiescent → (Trackers.after events).gauge.get =
      UInt64.ofNat ((Trackers.after events).live.map fun t => t.tracker.hashes.length).sum) ∧
    (0 ≤ (Trackers.after events).exact ∧
      ((Trackers.after events).gauge.get.toNat : ℤ) = (Trackers.after events).exact % 2 ^ 64) ∧
    ∀ (e : TrackerEvent deps) (delta : UInt64),
      (Trackers.after events).gaugeOp e = some (.sub delta) →
      (delta.toNat : ℤ) ≤ (Trackers.after events).exact ∧
      ((Trackers.after events).exact < 2 ^ 64 → delta ≤ (Trackers.after events).gauge.get) := by
  have h := gaugeInv_after events
  have hnonneg : 0 ≤ (Trackers.after events).exact := by
    rw [h.exact]
    exact Slots.total_nonneg GaugedTracker.contribution_nonneg
  refine ⟨h.gauge_of_quiescent, ⟨hnonneg, h.gauge⟩, ?_⟩
  intro e delta hop
  rcases (Trackers.after events).step_cases e with ⟨-, hnone⟩ | ⟨-, hnone⟩ |
    ⟨i, t, slot, hget, hmoves, -⟩
  · rw [hop] at hnone
    cases hnone
  · rw [hop] at hnone
    cases hnone
  · rw [hop] at hmoves
    have hle := Slots.le_total GaugedTracker.contribution_nonneg (getElem?_of_get? hget)
    have hdelta : (delta.toNat : ℤ) ≤ (Trackers.after events).exact := by
      rw [h.exact]
      exact hmoves.sub_le.trans hle
    refine ⟨hdelta, fun hbound => ?_⟩
    have hgauge := h.gauge
    rw [Int.emod_eq_of_lt hnonneg hbound] at hgauge
    rw [UInt64.le_iff_toNat_le]
    omega

end PromScrape
