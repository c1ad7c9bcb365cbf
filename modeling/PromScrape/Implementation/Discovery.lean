import PromScrape.Library.Transition
import PromScrape.Library.Watch
import PromScrape.Library.Reconcile
import PromScrape.Implementation.Targets

set_option autoImplicit false

/-! # Discovery and reconciliation of one job (`watch` in `src/sd.rs`, `run_job` in `src/scrape.rs`)

Every dynamic source sends complete snapshots of its slot through a bounded channel to a merger, which
publishes the merged groups when they changed; the job's manager reads what is published, stops the
scrape loops whose targets are gone, waiting for each one, starts those that are new, and waits for a
change. Tasks run in any order, so the system is a step function over events, each what one task does
between two points where another may run; an event whose task is not at that point does nothing. This
is the time before shutdown, where a scrape loop of the manager's map ends only after it was told that
its target left, or by a panic of its own, which the map does not show. The channels are `tokio`'s.

`sent`, `merged`, `passes` and `signals` are logs for the proofs; no step reads them. A loop is known by
its identity and by a number that no other loop of the job has. -/

namespace PromScrape

open Regex (Engine)

/-- The arguments of `run_job` that decide its targets. -/
structure JobTask (deps : RelabelDeps) where
  job : ScrapeConfig deps.engine
  global : GlobalConfig
  externalLabels : List Label
  trackStaleness : Bool

def JobTask.targets {deps : RelabelDeps} (task : JobTask deps) (groups : List TargetGroup) :
    Except Fault (List (Target deps.engine)) :=
  buildTargets deps task.job task.global task.externalLabels task.trackStaleness groups

/-- One slot for `file_sd`, one for each Kubernetes source. -/
def slotCount {E : Engine} (job : ScrapeConfig E) : Nat :=
  (!job.fileSdConfigs.isEmpty).toNat + job.kubernetesSdConfigs.length

/-- The static groups, then each slot's. -/
def mergedGroups {E : Engine} (job : ScrapeConfig E) (slots : List (List TargetGroup)) :
    List TargetGroup :=
  staticGroups job ++ slots.flatten

/-! ## State -/

/-- Where the manager is. -/
inductive Manager where
  /-- About to read what is published. -/
  | reading
  /-- In a pass over `snapshot`, whose targets have the identities `desired`; the loops of `removed` are
  still to be stopped. -/
  | stopping (snapshot : List TargetGroup) (desired removed : List UInt64)
  /-- The same, waiting for a loop that was told to stop. -/
  | awaiting (snapshot : List TargetGroup) (desired removed : List UInt64)
  /-- Waiting for a change. -/
  | waiting
  /-- Discovery never changes again; waiting for shutdown. -/
  | idle
  /-- `build_targets` panicked, and the task is gone. -/
  | panicked
deriving DecidableEq, Repr

/-- A finished pass: the groups it read, and the loops that run after it. -/
structure Pass where
  snapshot : List TargetGroup
  running : List (UInt64 × Nat)
deriving DecidableEq, Repr

/-- A loop that was told that its target left, and the groups that said so. -/
structure RemovalSignal where
  identity : UInt64
  loop : Nat
  snapshot : List TargetGroup
deriving DecidableEq, Repr

structure Discovery where
  /-- Which sources still hold a sender of the channel. -/
  sources : List Bool
  channel : List (Nat × List TargetGroup) := []
  slots : List (List TargetGroup)
  groups : Watch (List TargetGroup)
  manager : Manager := .reading
  /-- The scrape loops by identity. -/
  running : List (UInt64 × Nat) := []
  nextLoop : Nat := 0
  sent : List (Nat × List TargetGroup) := []
  merged : List (Nat × List TargetGroup) := []
  passes : List Pass := []
  signals : List RemovalSignal := []

inductive DiscoveryEvent where
  /-- The source of a slot sends its snapshot. -/
  | update (slot : Nat) (groups : List TargetGroup)
  /-- The task of a source ends. -/
  | sourceEnds (slot : Nat)
  /-- The merger receives an update and publishes. -/
  | merge
  /-- The merger finds the channel closed and ends. -/
  | mergerEnds
  /-- The manager reads the groups and builds the targets. -/
  | read
  /-- The manager tells a loop that its target left. -/
  | signal (identity : UInt64)
  /-- The loop it waits for has ended. -/
  | loopEnded
  /-- The manager starts the missing loops, which ends the pass. -/
  | start
  /-- The manager looks for a change. -/
  | changed
deriving DecidableEq, Repr

/-! ## Steps -/

namespace Discovery

variable {deps : RelabelDeps}

/-- A job with no dynamic source has no sender from the start. -/
def init (task : JobTask deps) : Discovery where
  sources := List.replicate (slotCount task.job) true
  slots := List.replicate (slotCount task.job) []
  groups := { value := staticGroups task.job, closed := slotCount task.job == 0 }

/-- The channel holds two updates for each slot. -/
def update (task : JobTask deps) (s : Discovery) (slot : Nat) (groups : List TargetGroup) :
    Discovery :=
  if s.sources[slot]? = some true ∧ s.channel.length < slotCount task.job * 2 then
    { s with channel := s.channel ++ [(slot, groups)], sent := s.sent ++ [(slot, groups)] }
  else s

/-- The body of the merger's loop. -/
def merge (task : JobTask deps) (s : Discovery) : Discovery :=
  match s.channel with
  | [] => s
  | (index, groups) :: channel =>
      let slots := s.slots.set index groups
      { s with
        channel := channel
        slots := slots
        groups := s.groups.sendIfModified (mergedGroups task.job slots)
        merged := s.merged ++ [(index, groups)] }

def mergerEnds (s : Discovery) : Discovery :=
  if s.channel.isEmpty && s.sources.all (!·) then { s with groups := s.groups.close } else s

/-- The start of a pass. -/
def read (task : JobTask deps) (s : Discovery) : Discovery :=
  match s.manager with
  | .reading =>
      let (snapshot, groups) := s.groups.borrowAndUpdate
      match task.targets snapshot with
      | .ok targets =>
          let desired := (desiredTargets targets).map Prod.fst
          { s with
            groups := groups
            manager := .stopping snapshot desired (Reconcile.surplus desired s.running) }
      -- unwinding drops the map, and with the senders in it every loop ends
      | .error _ => { s with groups := groups, manager := .panicked, running := [] }
  | _ => s

/-- One removed key: take the loop out of the map, signal it, wait for it. Keys come in any order. -/
def signal (s : Discovery) (identity : UInt64) : Discovery :=
  match s.manager with
  | .stopping snapshot desired removed =>
      if identity ∈ removed then
        match s.running.find? (·.1 == identity) with
        | some entry =>
            { s with
              manager := .awaiting snapshot desired (removed.erase identity)
              running := Reconcile.without identity s.running
              signals := s.signals ++ [⟨identity, entry.2, snapshot⟩] }
        | none => { s with manager := .stopping snapshot desired (removed.erase identity) }
      else s
  | _ => s

def loopEnded (s : Discovery) : Discovery :=
  match s.manager with
  | .awaiting snapshot desired removed => { s with manager := .stopping snapshot desired removed }
  | _ => s

/-- The end of a pass. -/
def start (s : Discovery) : Discovery :=
  match s.manager with
  | .stopping snapshot desired [] =>
      let (running, nextLoop) := Reconcile.startMissing desired s.running s.nextLoop
      { s with
        manager := .waiting
        running := running
        nextLoop := nextLoop
        passes := s.passes ++ [⟨snapshot, running⟩] }
  | _ => s

/-- `changed()`, which marks what it finds as seen. -/
def changed (s : Discovery) : Discovery :=
  match s.manager with
  | .waiting =>
      match s.groups.change with
      | .unseen => { s with groups := s.groups.markSeen, manager := .reading }
      | .closed => { s with manager := .idle }
      | .pending => s
  | _ => s

def step (task : JobTask deps) (s : Discovery) : DiscoveryEvent → Discovery
  | .update slot groups => s.update task slot groups
  | .sourceEnds slot => { s with sources := s.sources.set slot false }
  | .merge => s.merge task
  | .mergerEnds => s.mergerEnds
  | .read => s.read task
  | .signal identity => s.signal identity
  | .loopEnded => s.loopEnded
  | .start => s.start
  | .changed => s.changed

/-- The job after some schedule. -/
def after (task : JobTask deps) (events : List DiscoveryEvent) : Discovery :=
  Transition.run (step task) (init task) events

end Discovery

end PromScrape
