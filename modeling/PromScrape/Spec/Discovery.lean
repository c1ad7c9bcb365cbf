import PromScrape.Implementation.Discovery

set_option autoImplicit false

/-! # What discovery and reconciliation of a job are for

Stated over the logs of a run: what is published, which loops run after a pass, which loops go on, and
which are told to stop. -/

namespace PromScrape

/-- The last snapshot of a slot in a log of updates; nothing before the first. -/
def latest (log : List (Nat × List TargetGroup)) (slot : Nat) : List TargetGroup :=
  ((Keyed.lastWith Prod.fst log slot).map Prod.snd).getD []

/-- The groups yield targets, and one of them has this identity. -/
def HasIdentity {deps : RelabelDeps} (task : JobTask deps) (groups : List TargetGroup)
    (identity : UInt64) : Prop :=
  ∃ targets, task.targets groups = .ok targets ∧ identity ∈ targets.map Target.identity

/-- After the pass exactly one loop runs for each identity of the targets built from its groups, and no
other loop. -/
structure Pass.Correct {deps : RelabelDeps} (task : JobTask deps) (pass : Pass) : Prop where
  built : ∃ targets, task.targets pass.snapshot = .ok targets
  once : Keyed.Unique Prod.fst pass.running
  loops : ∀ identity, identity ∈ pass.running.map Prod.fst ↔ HasIdentity task pass.snapshot identity

/-- Between two passes, the loop of an identity in both goes on. -/
def Pass.Continues {deps : RelabelDeps} (task : JobTask deps) (p q : Pass) : Prop :=
  ∀ identity, HasIdentity task p.snapshot identity → HasIdentity task q.snapshot identity →
    ∃ loop, (identity, loop) ∈ p.running ∧ (identity, loop) ∈ q.running

/-- The loop ran after an earlier pass, and its identity is none of the targets built from the groups
that the signalling pass read. -/
structure RemovalSignal.Justified {deps : RelabelDeps} (task : JobTask deps) (passes : List Pass)
    (signal : RemovalSignal) : Prop where
  ran : ∃ pass ∈ passes, (signal.identity, signal.loop) ∈ pass.running
  built : ∃ targets, task.targets signal.snapshot = .ok targets
  gone : ¬ HasIdentity task signal.snapshot signal.identity

/-- The manager has finished this pass and does nothing: its loops are those of the pass. -/
def Discovery.RestsAfter (s : Discovery) (pass : Pass) : Prop :=
  s.passes.getLast? = some pass ∧ pass.running = s.running

/-- What holds of a job in every state it reaches before shutdown. -/
structure Reconciled {deps : RelabelDeps} (task : JobTask deps) (s : Discovery) : Prop where
  /-- Updates are merged in the order they were sent in. -/
  order : s.sent = s.merged ++ s.channel
  /-- The merger's index is always in bounds. -/
  inBounds : ∀ update ∈ s.channel, update.1 < s.slots.length
  /-- The published groups are the static ones and then, slot by slot, the latest merged snapshot. -/
  published : s.groups.value = staticGroups task.job ++
    (List.range (slotCount task.job)).flatMap (latest s.merged)
  passes : ∀ pass ∈ s.passes, pass.Correct task
  continues : s.passes.IsChain (Pass.Continues task)
  signals : ∀ signal ∈ s.signals, signal.Justified task s.passes
  /-- No loop is told twice to stop, and no loop that runs was told. -/
  signalledOnce : (s.signals.map RemovalSignal.loop).Nodup
  runningUntold : ∀ entry ∈ s.running, entry.2 ∉ s.signals.map RemovalSignal.loop
  /-- When the manager waits, the last pass read what is published, unless the manager is about to be
  told of a change. -/
  waiting : s.manager = .waiting → ∃ pass, s.RestsAfter pass ∧
    (s.groups.change ≠ .unseen → pass.snapshot = s.groups.value)
  /-- When it no longer looks for changes, the last pass read what stays published. -/
  idle : s.manager = .idle → ∃ pass, s.RestsAfter pass ∧ pass.snapshot = s.groups.value

end PromScrape
