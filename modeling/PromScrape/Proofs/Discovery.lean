import PromScrape.Spec.Discovery

set_option autoImplicit false

/-! # No interleaving of discovery and reconciliation loses an update or restarts a loop

`step_cases` says once what an event can do. Two invariants follow it: what the sources and the merger
keep of the published groups, and what the manager keeps of its loops, which depends on the groups only
through what the manager has seen of them. -/

namespace PromScrape

variable {deps : RelabelDeps} {task : JobTask deps} {s s' : Discovery}

/-! ## What an event can do -/

namespace Discovery

/-- The moves of the sources, of the merger and of the manager. -/
inductive Move (task : JobTask deps) (s : Discovery) : Discovery → Prop where
  | updated {slot : Nat} (groups : List TargetGroup) (halive : s.sources[slot]? = some true) :
      Move task s
        { s with channel := s.channel ++ [(slot, groups)], sent := s.sent ++ [(slot, groups)] }
  | sourceEnded (slot : Nat) : Move task s { s with sources := s.sources.set slot false }
  | merged {index : Nat} {groups : List TargetGroup} {channel : List (Nat × List TargetGroup)}
      (hchannel : s.channel = (index, groups) :: channel) :
      Move task s
        { s with
          channel := channel
          slots := s.slots.set index groups
          groups := s.groups.sendIfModified (mergedGroups task.job (s.slots.set index groups))
          merged := s.merged ++ [(index, groups)] }
  | mergerEnded (hchannel : s.channel = []) (hsources : true ∉ s.sources) :
      Move task s { s with groups := s.groups.close }
  | readTargets {targets : List (Target deps.engine)} (hmanager : s.manager = .reading)
      (htargets : task.targets s.groups.value = .ok targets) :
      Move task s
        { s with
          groups := s.groups.markSeen
          manager := .stopping s.groups.value ((desiredTargets targets).map Prod.fst)
            (Reconcile.surplus ((desiredTargets targets).map Prod.fst) s.running) }
  | panicked :
      Move task s { s with groups := s.groups.markSeen, manager := .panicked, running := [] }
  | signalled {snapshot : List TargetGroup} {desired removed : List UInt64} {identity : UInt64}
      {loop : Nat} (hmanager : s.manager = .stopping snapshot desired removed)
      (hremoved : identity ∈ removed) (hloop : (identity, loop) ∈ s.running) :
      Move task s
        { s with
          manager := .awaiting snapshot desired (removed.erase identity)
          running := Reconcile.without identity s.running
          signals := s.signals ++ [⟨identity, loop, snapshot⟩] }
  | absent {snapshot : List TargetGroup} {desired removed : List UInt64} {identity : UInt64}
      (hmanager : s.manager = .stopping snapshot desired removed)
      (hidentity : identity ∉ s.running.map Prod.fst) :
      Move task s { s with manager := .stopping snapshot desired (removed.erase identity) }
  | loopEnded {snapshot : List TargetGroup} {desired removed : List UInt64}
      (hmanager : s.manager = .awaiting snapshot desired removed) :
      Move task s { s with manager := .stopping snapshot desired removed }
  | started {snapshot : List TargetGroup} {desired : List UInt64}
      (hmanager : s.manager = .stopping snapshot desired []) :
      Move task s
        { s with
          manager := .waiting
          running := (Reconcile.startMissing desired s.running s.nextLoop).1
          nextLoop := (Reconcile.startMissing desired s.running s.nextLoop).2
          passes := s.passes ++
            [⟨snapshot, (Reconcile.startMissing desired s.running s.nextLoop).1⟩] }
  | woken (hmanager : s.manager = .waiting) :
      Move task s { s with groups := s.groups.markSeen, manager := .reading }
  | idled (hmanager : s.manager = .waiting) (hclosed : s.groups.closed = true)
      (hseen : s.groups.change ≠ .unseen) : Move task s { s with manager := .idle }

theorem update_cases (task : JobTask deps) (s : Discovery) (slot : Nat)
    (groups : List TargetGroup) :
    s.update task slot groups = s ∨ Move task s (s.update task slot groups) := by
  unfold update
  split
  · next h => exact .inr (.updated groups h.1)
  · exact .inl rfl

theorem merge_cases (task : JobTask deps) (s : Discovery) :
    s.merge task = s ∨ Move task s (s.merge task) := by
  unfold merge
  split
  · exact .inl rfl
  · next hchannel => exact .inr (.merged hchannel)

theorem mergerEnds_cases (task : JobTask deps) (s : Discovery) :
    s.mergerEnds = s ∨ Move task s s.mergerEnds := by
  unfold mergerEnds
  split
  · next h =>
      rw [Bool.and_eq_true, List.isEmpty_iff, List.all_eq_true] at h
      refine .inr (.mergerEnded h.1 fun hmem => ?_)
      have hfalse : (!true) = true := h.2 true hmem
      cases hfalse
  · exact .inl rfl

theorem read_cases (task : JobTask deps) (s : Discovery) :
    s.read task = s ∨ Move task s (s.read task) := by
  unfold read
  cases hmanager : s.manager with
  | reading =>
      simp only [Watch.borrowAndUpdate]
      cases htargets : task.targets s.groups.value with
      | ok targets => exact .inr (.readTargets hmanager htargets)
      | error fault => exact .inr .panicked
  | stopping | awaiting | waiting | idle | panicked => exact .inl rfl

theorem signal_cases (task : JobTask deps) (s : Discovery) (identity : UInt64) :
    s.signal identity = s ∨ Move task s (s.signal identity) := by
  unfold signal
  cases hmanager : s.manager with
  | stopping snapshot desired removed =>
      by_cases hremoved : identity ∈ removed
      · simp only [hremoved, if_true]
        cases hfind : s.running.find? (·.1 == identity) with
        | some entry =>
            obtain ⟨hentry, rfl⟩ := Keyed.mem_of_find? hfind
            exact .inr (.signalled hmanager hremoved hentry)
        | none => exact .inr (.absent hmanager (Keyed.find?_eq_none_iff.mp hfind))
      · refine .inl ?_
        simp only [hremoved, if_false]
  | reading | awaiting | waiting | idle | panicked => exact .inl rfl

theorem loopEnded_cases (task : JobTask deps) (s : Discovery) :
    s.loopEnded = s ∨ Move task s s.loopEnded := by
  unfold loopEnded
  cases hmanager : s.manager with
  | awaiting snapshot desired removed => exact .inr (.loopEnded hmanager)
  | reading | stopping | waiting | idle | panicked => exact .inl rfl

theorem start_cases (task : JobTask deps) (s : Discovery) :
    s.start = s ∨ Move task s s.start := by
  unfold start
  cases hmanager : s.manager with
  | stopping snapshot desired removed =>
      cases removed with
      | nil => exact .inr (.started hmanager)
      | cons identity rest => exact .inl rfl
  | reading | awaiting | waiting | idle | panicked => exact .inl rfl

theorem changed_cases (task : JobTask deps) (s : Discovery) :
    s.changed = s ∨ Move task s s.changed := by
  unfold changed
  cases hmanager : s.manager with
  | waiting =>
      cases hchange : s.groups.change with
      | unseen => exact .inr (.woken hmanager)
      | closed =>
          refine .inr (.idled hmanager (Watch.closed_of_change hchange) ?_)
          rw [hchange]
          exact Watch.Change.noConfusion
      | pending => exact .inl rfl
  | reading | stopping | awaiting | idle | panicked => exact .inl rfl

/-- **Every event does nothing or is one of the moves.** -/
theorem step_cases (task : JobTask deps) (s : Discovery) (event : DiscoveryEvent) :
    step task s event = s ∨ Move task s (step task s event) := by
  cases event with
  | update slot groups => exact update_cases task s slot groups
  | sourceEnds slot => exact .inr (.sourceEnded slot)
  | merge => exact merge_cases task s
  | mergerEnds => exact mergerEnds_cases task s
  | read => exact read_cases task s
  | signal identity => exact signal_cases task s identity
  | loopEnded => exact loopEnded_cases task s
  | start => exact start_cases task s
  | changed => exact changed_cases task s

end Discovery

/-! ## The sources and the merger -/

theorem latest_concat (log : List (Nat × List TargetGroup)) (index : Nat)
    (groups : List TargetGroup) (slot : Nat) :
    latest (log ++ [(index, groups)]) slot = if index = slot then groups else latest log slot := by
  unfold latest
  rw [Keyed.lastWith_concat]
  by_cases h : index = slot
  · rw [if_pos h, if_pos (beq_iff_eq.mpr h)]
    rfl
  · rw [if_neg h, if_neg (by simpa using h)]

/-- Assigning a slot is merging its update into the log. -/
theorem set_latest (n : Nat) (log : List (Nat × List TargetGroup)) (index : Nat)
    (groups : List TargetGroup) :
    ((List.range n).map (latest log)).set index groups =
      (List.range n).map (latest (log ++ [(index, groups)])) := by
  refine List.ext_getElem (by simp) fun slot h _ => ?_
  rw [List.getElem_set, List.getElem_map, List.getElem_map, List.getElem_range, latest_concat]

/-- What is merged and published, and what is still in the channel. -/
structure ChannelInv (task : JobTask deps) (s : Discovery) : Prop where
  order : s.sent = s.merged ++ s.channel
  sources : s.sources.length = slotCount task.job
  inRange : ∀ update ∈ s.channel, update.1 < slotCount task.job
  slots : s.slots = (List.range (slotCount task.job)).map (latest s.merged)
  groups : s.groups.value = mergedGroups task.job s.slots
  ended : s.groups.closed = true → s.channel = [] ∧ true ∉ s.sources

theorem channelInv_init (task : JobTask deps) : ChannelInv task (Discovery.init task) where
  order := rfl
  sources := List.length_replicate
  inRange := by
    intro update hupdate
    cases hupdate
  slots := by
    have hlatest : latest [] = fun _ => [] := rfl
    show List.replicate _ _ = _
    rw [Discovery.init, hlatest, List.map_const', List.length_range]
  groups := by
    show staticGroups task.job = mergedGroups task.job (List.replicate _ _)
    rw [mergedGroups, List.flatten_replicate_nil, List.append_nil]
  ended := by
    intro hclosed
    have hnone : slotCount task.job = 0 := beq_iff_eq.mp hclosed
    refine ⟨rfl, ?_⟩
    show true ∉ List.replicate _ _
    rw [hnone]
    exact List.not_mem_nil

/-- The manager changes neither the published groups nor what the merger works on. -/
theorem ChannelInv.of_manager (h : ChannelInv task s) {groups : Watch (List TargetGroup)}
    (hvalue : groups.value = s.groups.value) (hclosed : groups.closed = s.groups.closed)
    (manager : Manager) (running : List (UInt64 × Nat)) (nextLoop : Nat) (passes : List Pass)
    (signals : List RemovalSignal) :
    ChannelInv task { s with
      groups := groups, manager := manager, running := running, nextLoop := nextLoop,
      passes := passes, signals := signals } :=
  ⟨h.order, h.sources, h.inRange, h.slots, hvalue.trans h.groups,
    fun hc => h.ended (hclosed.symm.trans hc)⟩

theorem ChannelInv.updated (h : ChannelInv task s) {slot : Nat} (groups : List TargetGroup)
    (halive : s.sources[slot]? = some true) :
    ChannelInv task
      { s with channel := s.channel ++ [(slot, groups)], sent := s.sent ++ [(slot, groups)] } := by
  refine ⟨?_, h.sources, ?_, h.slots, h.groups, ?_⟩
  · show s.sent ++ _ = s.merged ++ (s.channel ++ _)
    rw [h.order, List.append_assoc]
  · intro update hupdate
    rcases List.mem_append.mp hupdate with hold | hnew
    · exact h.inRange update hold
    · obtain ⟨hslot, -⟩ := List.getElem?_eq_some_iff.mp halive
      rw [List.mem_singleton.mp hnew, ← h.sources]
      exact hslot
  · intro hclosed
    exact absurd (List.mem_of_getElem? halive) (h.ended hclosed).2

theorem ChannelInv.merged (h : ChannelInv task s) {index : Nat} {groups : List TargetGroup}
    {channel : List (Nat × List TargetGroup)} (hchannel : s.channel = (index, groups) :: channel) :
    ChannelInv task
      { s with
        channel := channel
        slots := s.slots.set index groups
        groups := s.groups.sendIfModified (mergedGroups task.job (s.slots.set index groups))
        merged := s.merged ++ [(index, groups)] } := by
  refine ⟨?_, h.sources, ?_, ?_, Watch.sendIfModified_value _ _, ?_⟩
  · show s.sent = (s.merged ++ [(index, groups)]) ++ channel
    rw [h.order, hchannel, List.append_assoc, List.singleton_append]
  · intro update hupdate
    refine h.inRange update ?_
    rw [hchannel]
    exact List.mem_cons_of_mem _ hupdate
  · show s.slots.set index groups = _
    rw [h.slots, set_latest]
  · intro hclosed
    rw [Watch.sendIfModified_closed] at hclosed
    have hnil := (h.ended hclosed).1
    rw [hchannel] at hnil
    cases hnil

theorem ChannelInv.step (h : ChannelInv task s) (hmove : Discovery.Move task s s') :
    ChannelInv task s' := by
  cases hmove with
  | updated groups halive => exact h.updated groups halive
  | sourceEnded slot =>
      refine ⟨h.order, ?_, h.inRange, h.slots, h.groups, ?_⟩
      · exact List.length_set.trans h.sources
      · intro hclosed
        refine ⟨(h.ended hclosed).1, fun hmem => ?_⟩
        rcases List.mem_or_eq_of_mem_set hmem with hmem | hfalse
        · exact (h.ended hclosed).2 hmem
        · cases hfalse
  | merged hchannel => exact h.merged hchannel
  | mergerEnded hchannel hsources =>
      exact ⟨h.order, h.sources, h.inRange, h.slots, h.groups, fun _ => ⟨hchannel, hsources⟩⟩
  | readTargets | panicked | woken =>
      exact h.of_manager s.groups.markSeen_value s.groups.markSeen_closed _ _ _ _ _
  | signalled | absent | loopEnded | started | idled => exact h.of_manager rfl rfl _ _ _ _ _

/-! ## The manager -/

/-- `desiredTargets` has the identities of the targets. -/
theorem mem_keys_desiredTargets {E : Regex.Engine} {targets : List (Target E)} {identity : UInt64} :
    identity ∈ (desiredTargets targets).map Prod.fst ↔ identity ∈ targets.map Target.identity := by
  rw [desiredTargets, Keyed.mem_map_upsertAll, List.map_map, List.map_nil]
  constructor
  · rintro (h | h)
    · exact h
    · cases h
  · exact .inl

theorem hasIdentity_iff {groups : List TargetGroup} {targets : List (Target deps.engine)}
    (h : task.targets groups = .ok targets) (identity : UInt64) :
    HasIdentity task groups identity ↔ identity ∈ (desiredTargets targets).map Prod.fst := by
  rw [mem_keys_desiredTargets]
  constructor
  · rintro ⟨others, hothers, hmem⟩
    rw [h] at hothers
    cases hothers
    exact hmem
  · exact fun hmem => ⟨targets, h, hmem⟩

/-- A pass over `snapshot` with the loops of `removed` still to be stopped. -/
structure InPass (task : JobTask deps) (s : Discovery) (snapshot : List TargetGroup)
    (desired removed : List UInt64) : Prop where
  built : ∃ targets, task.targets snapshot = .ok targets
  wanted : ∀ identity, HasIdentity task snapshot identity ↔ identity ∈ desired
  upToDate : s.groups.UpToDate snapshot
  surplus : ∀ identity ∈ s.running.map Prod.fst, identity ∉ desired → identity ∈ removed
  disjoint : ∀ identity ∈ removed, identity ∉ desired
  origin : ∀ entry ∈ s.running, ∃ pass ∈ s.passes, entry ∈ pass.running
  kept : ∀ pass, s.passes.getLast? = some pass →
    ∀ entry ∈ pass.running, entry.1 ∈ desired → entry ∈ s.running

/-- What holds where the manager is. -/
def PhaseInv (task : JobTask deps) (s : Discovery) : Manager → Prop
  | .reading => s.running = (s.passes.getLast?.map Pass.running).getD []
  | .stopping snapshot desired removed => InPass task s snapshot desired removed
  | .awaiting snapshot desired removed => InPass task s snapshot desired removed
  | .waiting => ∃ pass, s.RestsAfter pass ∧ s.groups.UpToDate pass.snapshot
  | .idle => s.groups.closed = true ∧ ∃ pass, s.RestsAfter pass ∧ pass.snapshot = s.groups.value
  | .panicked => True

structure LoopInv (task : JobTask deps) (s : Discovery) : Prop where
  numbered : Reconcile.Numbered (s.signals.map RemovalSignal.loop) s.running s.nextLoop
  passes : ∀ pass ∈ s.passes, pass.Correct task
  continues : s.passes.IsChain (Pass.Continues task)
  signals : ∀ signal ∈ s.signals, signal.Justified task s.passes
  phase : PhaseInv task s s.manager

theorem loopInv_init (task : JobTask deps) : LoopInv task (Discovery.init task) where
  numbered := ⟨List.nodup_nil, List.nodup_nil, fun _ hn => absurd hn List.not_mem_nil⟩
  passes := fun _ hpass => absurd hpass List.not_mem_nil
  continues := List.isChain_nil
  signals := fun _ hsignal => absurd hsignal List.not_mem_nil
  phase := rfl

/-- The manager only depends on whether what it read is up to date, and on a closed channel keeping its
value. -/
theorem LoopInv.of_groups (h : LoopInv task s) {groups : Watch (List TargetGroup)}
    (hread : ∀ read, s.groups.UpToDate read → groups.UpToDate read)
    (hclosed : s.groups.closed = true → groups.closed = true ∧ groups.value = s.groups.value)
    (sources : List Bool) (channel : List (Nat × List TargetGroup))
    (slots : List (List TargetGroup)) (sent merged : List (Nat × List TargetGroup)) :
    LoopInv task { s with
      sources := sources, channel := channel, slots := slots, groups := groups, sent := sent,
      merged := merged } := by
  refine ⟨h.numbered, h.passes, h.continues, h.signals, ?_⟩
  have hphase := h.phase
  show PhaseInv task _ s.manager
  cases hmanager : s.manager with
  | reading | panicked =>
      rw [hmanager] at hphase
      exact hphase
  | stopping snapshot desired removed | awaiting snapshot desired removed =>
      rw [hmanager] at hphase
      exact ⟨hphase.built, hphase.wanted, hread _ hphase.upToDate, hphase.surplus,
        hphase.disjoint, hphase.origin, hphase.kept⟩
  | waiting =>
      rw [hmanager] at hphase
      obtain ⟨pass, hrests, hupToDate⟩ := hphase
      exact ⟨pass, hrests, hread _ hupToDate⟩
  | idle =>
      rw [hmanager] at hphase
      obtain ⟨hwasClosed, pass, hrests, hvalue⟩ := hphase
      obtain ⟨hisClosed, hsame⟩ := hclosed hwasClosed
      exact ⟨hisClosed, pass, hrests, hvalue.trans hsame.symm⟩

/-- In a pass the running loops without a wish to run are those still to be stopped. -/
theorem LoopInv.phase_stopping (h : LoopInv task s) {snapshot : List TargetGroup}
    {desired removed : List UInt64} (hmanager : s.manager = .stopping snapshot desired removed) :
    InPass task s snapshot desired removed := by
  have hphase := h.phase
  rw [hmanager] at hphase
  exact hphase

theorem LoopInv.phase_waiting (h : LoopInv task s) (hmanager : s.manager = .waiting) :
    ∃ pass, s.RestsAfter pass ∧ s.groups.UpToDate pass.snapshot := by
  have hphase := h.phase
  rw [hmanager] at hphase
  exact hphase

/-- A pass starts from the loops of the pass before it. -/
theorem LoopInv.readTargets (h : LoopInv task s) {targets : List (Target deps.engine)}
    (hmanager : s.manager = .reading) (htargets : task.targets s.groups.value = .ok targets) :
    LoopInv task
      { s with
        groups := s.groups.markSeen
        manager := .stopping s.groups.value ((desiredTargets targets).map Prod.fst)
          (Reconcile.surplus ((desiredTargets targets).map Prod.fst) s.running) } := by
  have hrunning : s.running = (s.passes.getLast?.map Pass.running).getD [] := by
    have hphase := h.phase
    rw [hmanager] at hphase
    exact hphase
  refine ⟨h.numbered, h.passes, h.continues, h.signals, ?_⟩
  refine ⟨⟨targets, htargets⟩, hasIdentity_iff htargets, s.groups.upToDate_markSeen, ?_, ?_, ?_, ?_⟩
  · intro identity hidentity hnot
    exact Reconcile.mem_surplus.mpr ⟨hidentity, hnot⟩
  · intro identity hidentity
    exact (Reconcile.mem_surplus.mp hidentity).2
  · intro entry hentry
    have hmem : entry ∈ s.running := hentry
    rw [hrunning] at hmem
    cases hlast : s.passes.getLast? with
    | none =>
        rw [hlast] at hmem
        cases hmem
    | some pass =>
        rw [hlast] at hmem
        exact ⟨pass, List.mem_of_getLast? hlast, hmem⟩
  · intro pass hlast entry hentry _
    show entry ∈ s.running
    rw [hrunning, show s.passes.getLast? = some pass from hlast]
    exact hentry

theorem RemovalSignal.Justified.append {signal : RemovalSignal} {passes : List Pass}
    (h : signal.Justified task passes) (more : List Pass) :
    signal.Justified task (passes ++ more) := by
  obtain ⟨pass, hpass, hran⟩ := h.ran
  exact ⟨⟨pass, List.mem_append_left _ hpass, hran⟩, h.built, h.gone⟩

/-- Telling a loop to stop: it ran, and its target left. -/
theorem LoopInv.signalled (h : LoopInv task s) {snapshot : List TargetGroup}
    {desired removed : List UInt64} {identity : UInt64} {loop : Nat}
    (hmanager : s.manager = .stopping snapshot desired removed) (hremoved : identity ∈ removed)
    (hloop : (identity, loop) ∈ s.running) :
    LoopInv task
      { s with
        manager := .awaiting snapshot desired (removed.erase identity)
        running := Reconcile.without identity s.running
        signals := s.signals ++ [⟨identity, loop, snapshot⟩] } := by
  have hpass := h.phase_stopping hmanager
  have hgone : ¬ HasIdentity task snapshot identity :=
    fun hhas => hpass.disjoint identity hremoved ((hpass.wanted identity).mp hhas)
  refine ⟨?_, h.passes, h.continues, ?_, ?_⟩
  · show Reconcile.Numbered ((s.signals ++ [_]).map RemovalSignal.loop) _ _
    rw [List.map_append]
    exact h.numbered.stop hloop
  · intro signal hsignal
    rcases List.mem_append.mp hsignal with hold | hnew
    · exact h.signals signal hold
    · rw [List.mem_singleton.mp hnew]
      exact ⟨hpass.origin _ hloop, hpass.built, hgone⟩
  · refine ⟨hpass.built, hpass.wanted, hpass.upToDate, ?_, ?_, ?_, ?_⟩
    · intro other hother hnot
      obtain ⟨entry, hentry, rfl⟩ := List.mem_map.mp hother
      obtain ⟨hrunning, hne⟩ := Reconcile.mem_without.mp hentry
      exact (List.mem_erase_of_ne hne).mpr
        (hpass.surplus entry.1 (List.mem_map_of_mem hrunning) hnot)
    · intro other hother
      exact hpass.disjoint other (List.mem_of_mem_erase hother)
    · intro entry hentry
      exact hpass.origin entry (Reconcile.mem_without.mp hentry).1
    · intro pass hlast entry hentry hdesired
      refine Reconcile.mem_without.mpr ⟨hpass.kept pass hlast entry hentry hdesired, ?_⟩
      rintro rfl
      exact hpass.disjoint _ hremoved hdesired

/-- A key with no loop needs no stopping. -/
theorem LoopInv.absent (h : LoopInv task s) {snapshot : List TargetGroup}
    {desired removed : List UInt64} {identity : UInt64}
    (hmanager : s.manager = .stopping snapshot desired removed)
    (hidentity : identity ∉ s.running.map Prod.fst) :
    LoopInv task { s with manager := .stopping snapshot desired (removed.erase identity) } := by
  have hpass := h.phase_stopping hmanager
  refine ⟨h.numbered, h.passes, h.continues, h.signals, ?_⟩
  refine ⟨hpass.built, hpass.wanted, hpass.upToDate, ?_, ?_, hpass.origin, hpass.kept⟩
  · intro other hother hnot
    have hne : other ≠ identity := by
      rintro rfl
      exact hidentity hother
    exact (List.mem_erase_of_ne hne).mpr (hpass.surplus other hother hnot)
  · intro other hother
    exact hpass.disjoint other (List.mem_of_mem_erase hother)

/-- Once no loop is left to be stopped, starting the missing ones makes the loops those of the groups. -/
theorem LoopInv.started_correct (h : LoopInv task s) {snapshot : List TargetGroup}
    {desired : List UInt64} (hpass : InPass task s snapshot desired []) :
    Pass.Correct task ⟨snapshot, (Reconcile.startMissing desired s.running s.nextLoop).1⟩ := by
  refine ⟨hpass.built, (h.numbered.startMissing desired).keys, fun identity => ?_⟩
  rw [hpass.wanted, Reconcile.mem_keys_startMissing]
  constructor
  · rintro (hrunning | hdesired)
    · by_contra hnot
      exact List.not_mem_nil (hpass.surplus identity hrunning hnot)
    · exact hdesired
  · exact .inr

/-- **A loop whose identity stays is not restarted.** -/
theorem LoopInv.started_continues (h : LoopInv task s) {snapshot : List TargetGroup}
    {desired : List UInt64} (hpass : InPass task s snapshot desired []) {last : Pass}
    (hlast : s.passes.getLast? = some last) :
    last.Continues task ⟨snapshot, (Reconcile.startMissing desired s.running s.nextLoop).1⟩ := by
  intro identity hbefore hafter
  have hcorrect := h.passes last (List.mem_of_getLast? hlast)
  obtain ⟨⟨_, loop⟩, hentry, rfl⟩ := List.mem_map.mp ((hcorrect.loops identity).mpr hbefore)
  have hkept := hpass.kept last hlast _ hentry ((hpass.wanted _).mp hafter)
  exact ⟨loop, hentry, Reconcile.mem_startMissing_of_mem hkept⟩

theorem LoopInv.started (h : LoopInv task s) {snapshot : List TargetGroup} {desired : List UInt64}
    (hmanager : s.manager = .stopping snapshot desired []) :
    LoopInv task
      { s with
        manager := .waiting
        running := (Reconcile.startMissing desired s.running s.nextLoop).1
        nextLoop := (Reconcile.startMissing desired s.running s.nextLoop).2
        passes := s.passes ++
          [⟨snapshot, (Reconcile.startMissing desired s.running s.nextLoop).1⟩] } := by
  have hpass := h.phase_stopping hmanager
  refine ⟨h.numbered.startMissing desired, ?_, ?_, fun signal hsignal =>
    (h.signals signal hsignal).append _, ⟨_, ⟨List.getLast?_concat, rfl⟩, hpass.upToDate⟩⟩
  · intro pass hmem
    rcases List.mem_append.mp hmem with hold | hnew
    · exact h.passes pass hold
    · rw [List.mem_singleton.mp hnew]
      exact h.started_correct hpass
  · refine List.isChain_append.mpr ⟨h.continues, List.isChain_singleton _, ?_⟩
    intro last hlast pass hhead
    cases hhead
    exact h.started_continues hpass hlast

/-- The manager starts over from the loops it has. -/
theorem LoopInv.woken (h : LoopInv task s) (hmanager : s.manager = .waiting) :
    LoopInv task { s with groups := s.groups.markSeen, manager := .reading } := by
  refine ⟨h.numbered, h.passes, h.continues, h.signals, ?_⟩
  obtain ⟨pass, ⟨hlast, hrunning⟩, -⟩ := h.phase_waiting hmanager
  show s.running = (s.passes.getLast?.map Pass.running).getD []
  rw [hlast]
  exact hrunning.symm

theorem LoopInv.idled (h : LoopInv task s) (hmanager : s.manager = .waiting)
    (hclosed : s.groups.closed = true) (hseen : s.groups.change ≠ .unseen) :
    LoopInv task { s with manager := .idle } := by
  refine ⟨h.numbered, h.passes, h.continues, h.signals, ?_⟩
  obtain ⟨pass, hrests, hupToDate⟩ := h.phase_waiting hmanager
  exact ⟨hclosed, pass, hrests, hupToDate.eq_of_change hseen⟩

theorem LoopInv.step (h : LoopInv task s) (hchannel : ChannelInv task s)
    (hmove : Discovery.Move task s s') : LoopInv task s' := by
  cases hmove with
  | updated | sourceEnded =>
      exact h.of_groups (fun _ hread => hread) (fun hclosed => ⟨hclosed, rfl⟩) _ _ _ _ _
  | merged hmore =>
      refine h.of_groups (fun _ hread => hread.sendIfModified _) (fun hclosed => ?_) _ _ _ _ _
      -- a closed channel is empty, so nothing is merged
      have hnil := (hchannel.ended hclosed).1
      rw [hmore] at hnil
      cases hnil
  | mergerEnded =>
      exact h.of_groups (fun _ hread => hread.close) (fun _ => ⟨rfl, rfl⟩) _ _ _ _ _
  | readTargets hmanager htargets => exact h.readTargets hmanager htargets
  | panicked => exact ⟨h.numbered.clear, h.passes, h.continues, h.signals, trivial⟩
  | signalled hmanager hremoved hloop => exact h.signalled hmanager hremoved hloop
  | absent hmanager hidentity => exact h.absent hmanager hidentity
  | loopEnded hmanager =>
      have hphase := h.phase
      rw [hmanager] at hphase
      refine ⟨h.numbered, h.passes, h.continues, h.signals, ?_⟩
      exact ⟨hphase.built, hphase.wanted, hphase.upToDate, hphase.surplus, hphase.disjoint,
        hphase.origin, hphase.kept⟩
  | started hmanager => exact h.started hmanager
  | woken hmanager => exact h.woken hmanager
  | idled hmanager hclosed hseen => exact h.idled hmanager hclosed hseen

/-! ## Every run -/

theorem discovery_step (task : JobTask deps) (s : Discovery) (event : DiscoveryEvent)
    (h : ChannelInv task s ∧ LoopInv task s) :
    ChannelInv task (Discovery.step task s event) ∧ LoopInv task (Discovery.step task s event) := by
  obtain ⟨hchannel, hloop⟩ := h
  rcases Discovery.step_cases task s event with hsame | hmove
  · rw [hsame]
    exact ⟨hchannel, hloop⟩
  · exact ⟨hchannel.step hmove, hloop.step hchannel hmove⟩

theorem discovery_invariant (task : JobTask deps) (events : List DiscoveryEvent) :
    ChannelInv task (Discovery.after task events) ∧ LoopInv task (Discovery.after task events) :=
  Transition.run_invariant (discovery_step task) ⟨channelInv_init task, loopInv_init task⟩ events

theorem ChannelInv.published (h : ChannelInv task s) :
    s.groups.value = staticGroups task.job ++
      (List.range (slotCount task.job)).flatMap (latest s.merged) := by
  rw [h.groups, mergedGroups, h.slots, List.flatMap_def]

theorem ChannelInv.inBounds (h : ChannelInv task s) :
    ∀ update ∈ s.channel, update.1 < s.slots.length := by
  intro update hupdate
  rw [h.slots, List.length_map, List.length_range]
  exact h.inRange update hupdate

/-- **Discovery and reconciliation keep their promises under every interleaving.** -/
theorem discovery_reconciled (task : JobTask deps) (events : List DiscoveryEvent) :
    Reconciled task (Discovery.after task events) := by
  obtain ⟨hchannel, hloop⟩ := discovery_invariant task events
  have hnumbers := List.nodup_append'.mp hloop.numbered.numbers
  refine ⟨hchannel.order, hchannel.inBounds, hchannel.published, hloop.passes, hloop.continues,
    hloop.signals, hnumbers.1, ?_, ?_, ?_⟩
  · intro entry hentry hsignalled
    exact hnumbers.2.2 hsignalled (List.mem_map_of_mem hentry)
  · intro hmanager
    obtain ⟨pass, hrests, hupToDate⟩ := hloop.phase_waiting hmanager
    exact ⟨pass, hrests, hupToDate.eq_of_change⟩
  · intro hmanager
    have hphase := hloop.phase
    rw [hmanager] at hphase
    exact hphase.2

end PromScrape
