import PromScrape.Library.Transition
import PromScrape.Library.Slots
import PromScrape.Implementation.Telemetry

set_option autoImplicit false

/-! # The tracked-series gauge (`SeriesTracker::update_gauge` and `Drop` in `src/scrape.rs`)

Every tracker reports its size into one global gauge, by the difference to the size it reported last.
Trackers belong to tasks that run in any order, so the system is a step function over events; an
operation on a tracker is cut where another task may see the gauge: the change of `hashes`, the one
atomic addition or subtraction, and the store of `tracked_reported`. A panic while markers are
re-derived leaves the operation by unwinding, so that only the drop follows. An event whose tracker is
not at that point does nothing. -/

namespace PromScrape

/-! ## One tracker -/

inductive TrackerPhase where
  /-- No operation is under way. -/
  | idle
  /-- `hashes` is assigned; `update_gauge` comes next. -/
  | changed
  /-- The gauge is updated to this size; `tracked_reported` is not assigned yet. -/
  | counted (now : UInt64)
  /-- A panic unwinds. -/
  | unwinding
deriving DecidableEq, Repr

structure GaugedTracker where
  tracker : SeriesTracker
  /-- Last size reported into the gauge. -/
  trackedReported : UInt64 := 0
  phase : TrackerPhase := .idle
deriving DecidableEq, Repr

/-- An atomic operation on the gauge. -/
inductive GaugeOp where
  | add (delta : UInt64)
  | sub (delta : UInt64)
deriving DecidableEq, Repr

def GaugeOp.apply : GaugeOp → Telemetry.Value → Telemetry.Value
  | .add delta, gauge => gauge.add delta
  | .sub delta, gauge => gauge.sub delta

/-- What the operation adds, as an integer. -/
def GaugeOp.amount : GaugeOp → ℤ
  | .add delta => delta.toNat
  | .sub delta => -delta.toNat

/-- `self.hashes.len() as u64`. -/
def GaugedTracker.now (t : GaugedTracker) : UInt64 := UInt64.ofNat t.tracker.hashes.length

/-- The operation of `update_gauge`. -/
def GaugedTracker.updateOp (t : GaugedTracker) : GaugeOp :=
  if t.now ≥ t.trackedReported then .add (t.now - t.trackedReported)
  else .sub (t.trackedReported - t.now)

/-! ## The system -/

/-- The gauge, and a slot for every tracker that was ever made; a dropped one leaves its slot free.
`exact` is what was added less what was subtracted, for the proofs; no step reads it. -/
structure Trackers where
  gauge : Telemetry.Value := {}
  slots : List (Option GaugedTracker) := []
  exact : ℤ := 0

inductive TrackerEvent (deps : ScrapeDeps) where
  /-- `SeriesTracker::default()`. -/
  | create
  /-- `advance` up to the assignment of `hashes`. -/
  | advance (i : Nat) (target : Target deps.relabel.engine) (batch : List TimeSeries)
      (retainedBody : Option ScrapeBody) (startMs : Int64)
  /-- `drain_all` up to its `update_gauge`. -/
  | drainAll (i : Nat) (target : Target deps.relabel.engine) (timestamp : Int64)
  /-- The addition or subtraction of `update_gauge`. -/
  | updateGauge (i : Nat)
  /-- The assignment of `tracked_reported` that ends `update_gauge`. -/
  | store (i : Nat)
  /-- The tracker goes out of scope. -/
  | drop (i : Nat)

namespace Trackers

/-- The tracker in a slot. -/
def get? (s : Trackers) (i : Nat) : Option GaugedTracker := (s.slots[i]?).join

def set (s : Trackers) (i : Nat) (slot : Option GaugedTracker) : Trackers :=
  { s with slots := s.slots.set i slot }

def operate (s : Trackers) : Option GaugeOp → Trackers
  | none => s
  | some op => { s with gauge := op.apply s.gauge, exact := s.exact + op.amount }

/-- The operation that an event does on the gauge. -/
def gaugeOp {deps : ScrapeDeps} (s : Trackers) : TrackerEvent deps → Option GaugeOp
  | .updateGauge i => (s.get? i).bind fun t => if t.phase = .changed then some t.updateOp else none
  | .drop i =>
      (s.get? i).bind fun t =>
        if t.phase = .idle ∨ t.phase = .unwinding then some (.sub t.trackedReported) else none
  | _ => none

/-- What an event does to the slots. -/
def change {deps : ScrapeDeps} (s : Trackers) : TrackerEvent deps → Trackers
  | .create => { s with slots := s.slots ++ [some { tracker := .default }] }
  | .advance i target batch retainedBody startMs =>
      match s.get? i with
      | none => s
      | some t =>
          if t.phase = .idle then
            match t.tracker.advance deps target batch retainedBody startMs with
            | .ok advanced => s.set i (some { t with tracker := advanced.2, phase := .changed })
            | .error _ => s.set i (some { t with phase := .unwinding })
          else s
  | .drainAll i target timestamp =>
      match s.get? i with
      | none => s
      | some t =>
          if t.phase = .idle then
            match t.tracker.drainAll deps target timestamp with
            | .ok drained => s.set i (some { t with tracker := drained.2, phase := .changed })
            | .error _ =>
                -- the hashes are taken out before the markers are re-derived
                s.set i (some { t with tracker := { t.tracker with hashes := [] }, phase := .unwinding })
          else s
  | .updateGauge i =>
      match s.get? i with
      | none => s
      | some t => if t.phase = .changed then s.set i (some { t with phase := .counted t.now }) else s
  | .store i =>
      match s.get? i with
      | none => s
      | some t =>
          match t.phase with
          | .counted now => s.set i (some { t with trackedReported := now, phase := .idle })
          | _ => s
  | .drop i =>
      match s.get? i with
      | none => s
      | some t => if t.phase = .idle ∨ t.phase = .unwinding then s.set i none else s

def step {deps : ScrapeDeps} (s : Trackers) (e : TrackerEvent deps) : Trackers :=
  (s.change e).operate (s.gaugeOp e)

/-- The state after some schedule, starting without trackers. -/
def after {deps : ScrapeDeps} (events : List (TrackerEvent deps)) : Trackers :=
  Transition.run step {} events

/-- The trackers that are not dropped yet. -/
def live (s : Trackers) : List GaugedTracker := Slots.live s.slots

/-- Every started operation has finished. -/
def Quiescent (s : Trackers) : Prop := ∀ t ∈ s.live, t.phase = .idle

end Trackers

end PromScrape
