import PromScrape.Implementation.JobDiscovery
import PromScrape.Proofs.Discovery
import PromScrape.Proofs.KubernetesRun
import PromScrape.Proofs.TargetIdentity

set_option autoImplicit false

/-! # From the objects of the API server to the running scrape loops

The job keeps the invariants of `Discovery`, each source those of its run, and what a source sent is
what the channel got for its slot. Once nothing is on its way any more, the loops that run are those of
the targets that the objects now in the stores describe. -/

namespace PromScrape

open Kubernetes (SdTask Run RunEvent)
open Multimap (IterationOrder)

variable {deps : RelabelDeps} {toLowercase : String → String} {kubernetesJob : KubernetesJob deps}
  {s : JobDiscovery}

/-! ## Slots -/

theorem slotCount_eq (kubernetesJob : KubernetesJob deps) :
    slotCount kubernetesJob.job.job =
      fileSlots kubernetesJob.job.job + kubernetesJob.sources.length := by
  rw [slotCount, fileSlots, kubernetesJob.entries, List.length_map]

theorem KubernetesJob.slot_lt {i : Nat} {task : SdTask}
    (h : kubernetesJob.sources[i]? = some task) :
    task.slot < slotCount kubernetesJob.job.job := by
  obtain ⟨hi, -⟩ := List.getElem?_eq_some_iff.mp h
  rw [kubernetesJob.slots i task h, slotCount_eq]
  omega

/-! ## Frames -/

/-- The merger and the manager neither send nor hold a sender. -/
theorem Discovery.step_frame (job : JobTask deps) (d : Discovery) (event : DiscoveryEvent)
    (hupdate : ∀ slot groups, event ≠ .update slot groups)
    (hends : ∀ slot, event ≠ .sourceEnds slot) :
    (Discovery.step job d event).sent = d.sent ∧
      (Discovery.step job d event).sources = d.sources := by
  cases event with
  | update slot groups => exact absurd rfl (hupdate slot groups)
  | sourceEnds slot => exact absurd rfl (hends slot)
  | merge =>
      show (d.merge job).sent = _ ∧ (d.merge job).sources = _
      unfold Discovery.merge
      split <;> exact ⟨rfl, rfl⟩
  | mergerEnds =>
      show d.mergerEnds.sent = _ ∧ d.mergerEnds.sources = _
      unfold Discovery.mergerEnds
      split <;> exact ⟨rfl, rfl⟩
  | read =>
      show (d.read job).sent = _ ∧ (d.read job).sources = _
      unfold Discovery.read
      split
      · simp only [Watch.borrowAndUpdate]
        split <;> exact ⟨rfl, rfl⟩
      · exact ⟨rfl, rfl⟩
  | signal identity =>
      show (d.signal identity).sent = _ ∧ (d.signal identity).sources = _
      unfold Discovery.signal
      split
      · split_ifs
        · split <;> exact ⟨rfl, rfl⟩
        · exact ⟨rfl, rfl⟩
      · exact ⟨rfl, rfl⟩
  | loopEnded =>
      show d.loopEnded.sent = _ ∧ d.loopEnded.sources = _
      unfold Discovery.loopEnded
      split <;> exact ⟨rfl, rfl⟩
  | start =>
      show d.start.sent = _ ∧ d.start.sources = _
      unfold Discovery.start
      split <;> exact ⟨rfl, rfl⟩
  | changed =>
      show d.changed.sent = _ ∧ d.changed.sources = _
      unfold Discovery.changed
      split
      · split <;> exact ⟨rfl, rfl⟩
      · exact ⟨rfl, rfl⟩

theorem Discovery.update_of_room {job : JobTask deps} {d : Discovery} {slot : Nat}
    (halive : d.sources[slot]? = some true) (hroom : d.channel.length < slotCount job.job * 2)
    (groups : List TargetGroup) :
    d.update job slot groups =
      { d with channel := d.channel ++ [(slot, groups)], sent := d.sent ++ [(slot, groups)] } := by
  unfold Discovery.update
  rw [if_pos ⟨halive, hroom⟩]

/-- A run sends in its event `send` only. -/
theorem Kubernetes.Run.step_sent {task : SdTask} {run : Run} {event : RunEvent}
    (h : event ≠ .send) : (Run.step toLowercase task run event).sent = run.sent := by
  cases event with
  | send => exact absurd rfl h
  | notify key => rfl
  | stored key contents synced =>
      show (run.stored key contents synced).sent = _
      unfold Run.stored
      split <;> rfl
  | watchEnds key =>
      show (run.watchEnds key).sent = _
      unfold Run.watchEnds
      split <;> rfl
  | sync =>
      show (run.sync task).sent = _
      unfold Run.sync
      split
      · rfl
      · split <;> rfl
      · rfl
  | read =>
      show run.read.sent = _
      unfold Run.read
      split <;> rfl
  | build orders =>
      show (run.build toLowercase task orders).sent = _
      unfold Run.build
      split <;> rfl
  | mergerGone =>
      show run.mergerGone.sent = _
      unfold Run.mergerGone
      split <;> rfl
  | recv =>
      show (run.recv task).sent = _
      unfold Run.recv
      split
      · split_ifs <;> rfl
      · rfl
  | absorb =>
      show (run.absorb task).sent = _
      unfold Run.absorb
      split
      · split_ifs <;> rfl
      · rfl
  | quiet =>
      show (run.quiet task).sent = _
      unfold Run.quiet
      split <;> rfl

/-- A run that has returned stays so. -/
theorem Kubernetes.Run.step_stopped {task : SdTask} {run : Run} (h : run.phase = .stopped)
    (event : RunEvent) : (Run.step toLowercase task run event).phase = .stopped := by
  rcases @Run.step_cases toLowercase task run event with hsame | hmove
  · rw [hsame, h]
  · generalize Run.step toLowercase task run event = run' at hmove
    cases hmove with
    | stored | notified | watchEnded => exact h
    | stopped => rfl
    | began hphase | synced hphase | read hphase | built _ hphase | sent hphase | received hphase
    | absorbed hphase => simp [h] at hphase

/-! ## The invariant -/

/-- A source: its run, what it sent, and its sender of the channel. -/
structure SourceInv (toLowercase : String → String) (d : Discovery) (task : SdTask) (run : Run) :
    Prop where
  inv : Run.Inv toLowercase task run
  sent : d.sent.filter (·.1 == task.slot) = run.sent
  alive : run.phase ≠ .stopped → d.sources[task.slot]? = some true

structure JobInv (toLowercase : String → String) (kubernetesJob : KubernetesJob deps)
    (s : JobDiscovery) : Prop where
  channel : ChannelInv kubernetesJob.job s.discovery
  loops : LoopInv kubernetesJob.job s.discovery
  sources : ∀ i task, kubernetesJob.sources[i]? = some task →
    SourceInv toLowercase s.discovery task (s.runs i)

theorem jobInv_init (kubernetesJob : KubernetesJob deps) :
    JobInv toLowercase kubernetesJob (JobDiscovery.init kubernetesJob) where
  channel := channelInv_init kubernetesJob.job
  loops := loopInv_init kubernetesJob.job
  sources := by
    intro i task htask
    have hrun : (JobDiscovery.init kubernetesJob).runs i = Run.init task := by
      simp only [JobDiscovery.init, htask, Option.map_some, Option.getD_some]
    rw [hrun]
    refine ⟨Run.inv_init task, ?_, fun _ => ?_⟩
    · unfold Run.init
      split <;> rfl
    · show (List.replicate (slotCount kubernetesJob.job.job) true)[task.slot]? = some true
      rw [List.getElem?_replicate, if_pos (KubernetesJob.slot_lt htask)]

/-- The slot of a source is not among those of `file_sd`. -/
theorem KubernetesJob.not_file_slot {i : Nat} {task : SdTask}
    (h : kubernetesJob.sources[i]? = some task) :
    ¬ task.slot < fileSlots kubernetesJob.job.job := by
  rw [kubernetesJob.slots i task h]
  omega

/-- What a source knows depends on the job only through its own slot. -/
theorem SourceInv.of_discovery {d d' : Discovery} {task : SdTask} {run : Run}
    (h : SourceInv toLowercase d task run)
    (hsent : d'.sent.filter (·.1 == task.slot) = d.sent.filter (·.1 == task.slot))
    (hsources : run.phase ≠ .stopped → d'.sources[task.slot]? = d.sources[task.slot]?) :
    SourceInv toLowercase d' task run :=
  ⟨h.inv, hsent.trans h.sent, fun hphase => (hsources hphase).trans (h.alive hphase)⟩

theorem JobInv.jobStep (h : JobInv toLowercase kubernetesJob s) (event : DiscoveryEvent) :
    JobInv toLowercase kubernetesJob (s.jobStep kubernetesJob event) := by
  obtain ⟨hchannel, hloops⟩ := discovery_step kubernetesJob.job s.discovery event ⟨h.channel, h.loops⟩
  have hframe : (∀ slot groups, event ≠ .update slot groups) → (∀ slot, event ≠ .sourceEnds slot) →
      JobInv toLowercase kubernetesJob
        { s with discovery := Discovery.step kubernetesJob.job s.discovery event } := by
    intro hupdate hends
    obtain ⟨hsent, hsources⟩ := Discovery.step_frame kubernetesJob.job s.discovery event hupdate hends
    exact ⟨hchannel, hloops, fun i task htask =>
      (h.sources i task htask).of_discovery (by rw [hsent]) fun _ => by rw [hsources]⟩
  unfold JobDiscovery.jobStep
  cases event with
  | update slot groups =>
      simp only []
      split_ifs with hslot
      · refine ⟨hchannel, hloops, fun i task htask => ?_⟩
        have hne : slot ≠ task.slot := by
          rintro rfl
          exact KubernetesJob.not_file_slot htask hslot
        refine (h.sources i task htask).of_discovery ?_ fun _ => ?_
        · show (s.discovery.update kubernetesJob.job slot groups).sent.filter _ = _
          unfold Discovery.update
          split
          · rw [List.filter_append, List.filter_singleton, beq_eq_false_iff_ne.mpr hne, cond_false,
              List.append_nil]
          · rfl
        · show (s.discovery.update kubernetesJob.job slot groups).sources[task.slot]? = _
          unfold Discovery.update
          split <;> rfl
      · exact h
  | sourceEnds slot =>
      simp only []
      split_ifs with hslot
      · refine ⟨hchannel, hloops, fun i task htask => ?_⟩
        refine (h.sources i task htask).of_discovery rfl fun hphase => ?_
        have hne : slot ≠ task.slot := by
          rintro rfl
          rcases hslot with hfile | hreturned
          · exact KubernetesJob.not_file_slot htask hfile
          · unfold JobDiscovery.returned at hreturned
            rw [kubernetesJob.slots i task htask, Nat.add_sub_cancel_left] at hreturned
            split at hreturned
            · next hstopped => exact hphase hstopped
            · cases hreturned
        show (s.discovery.sources.set slot false)[task.slot]? = _
        rw [List.getElem?_set_ne hne]
      · exact h
  | merge | mergerEnds | read | signal | loopEnded | start | changed =>
      exact hframe (fun _ _ h => by cases h) fun _ h => by cases h

/-- A step of a source that sends nothing. -/
theorem JobInv.sourceStepped (h : JobInv toLowercase kubernetesJob s) {i : Nat} {task : SdTask}
    (htask : kubernetesJob.sources[i]? = some task) {event : RunEvent} (hevent : event ≠ .send) :
    JobInv toLowercase kubernetesJob
      { s with runs := Function.update s.runs i (Run.step toLowercase task (s.runs i) event) } := by
  refine ⟨h.channel, h.loops, fun j other hother => ?_⟩
  have hinv := h.sources j other hother
  show SourceInv toLowercase s.discovery other (Function.update s.runs i _ j)
  by_cases hj : j = i
  · subst hj
    obtain rfl : task = other := Option.some.inj (htask.symm.trans hother)
    rw [Function.update_self]
    exact ⟨Run.inv_step _ event hinv.inv, hinv.sent.trans (Run.step_sent hevent).symm,
      fun hphase => hinv.alive fun hstopped => hphase (Run.step_stopped hstopped event)⟩
  · rw [Function.update_of_ne hj]
    exact hinv

/-- A source sends: the channel gets what its run logs. -/
theorem JobInv.sourceSent (h : JobInv toLowercase kubernetesJob s) {i : Nat} {task : SdTask}
    (htask : kubernetesJob.sources[i]? = some task) {groups : List TargetGroup}
    (hphase : (s.runs i).phase = .sending groups)
    (hroom : s.discovery.channel.length < slotCount kubernetesJob.job.job * 2) :
    JobInv toLowercase kubernetesJob
      { runs := Function.update s.runs i (Run.step toLowercase task (s.runs i) .send)
        discovery := s.discovery.update kubernetesJob.job task.slot groups } := by
  have hne : (s.runs i).phase ≠ .stopped := by
    rw [hphase]
    exact Kubernetes.RunPhase.noConfusion
  have hupdate := Discovery.update_of_room ((h.sources i task htask).alive hne) hroom groups
  have hsend : Run.step toLowercase task (s.runs i) .send =
      { s.runs i with phase := .waiting, sent := (s.runs i).sent ++ [(task.slot, groups)] } := by
    show Run.send task (s.runs i) = _
    unfold Run.send
    rw [hphase]
  obtain ⟨hchannel, hloops⟩ := discovery_step kubernetesJob.job s.discovery
    (.update task.slot groups) ⟨h.channel, h.loops⟩
  refine ⟨hchannel, hloops, fun j other hother => ?_⟩
  have hinv := h.sources j other hother
  rw [hupdate, hsend]
  show SourceInv toLowercase _ other (Function.update s.runs i _ j)
  by_cases hj : j = i
  · subst hj
    obtain rfl : task = other := Option.some.inj (htask.symm.trans hother)
    rw [Function.update_self]
    refine ⟨hsend ▸ Run.inv_step _ .send hinv.inv, ?_, fun _ => hinv.alive hne⟩
    rw [List.filter_append, hinv.sent, List.filter_singleton, beq_self_eq_true, cond_true]
  · have hslot : task.slot ≠ other.slot := by
      rw [kubernetesJob.slots i task htask, kubernetesJob.slots j other hother]
      omega
    rw [Function.update_of_ne hj]
    refine ⟨hinv.inv, ?_, hinv.alive⟩
    rw [List.filter_append, hinv.sent, List.filter_singleton, beq_eq_false_iff_ne.mpr hslot,
      cond_false, List.append_nil]

theorem JobInv.sourceStep (h : JobInv toLowercase kubernetesJob s) {i : Nat} {task : SdTask}
    (htask : kubernetesJob.sources[i]? = some task) (event : RunEvent) :
    JobInv toLowercase kubernetesJob (s.sourceStep toLowercase kubernetesJob i task event) := by
  cases event with
  | send =>
      simp only [JobDiscovery.sourceStep]
      split
      · next groups hphase =>
          split_ifs with hroom
          · exact h.sourceSent htask hphase hroom
          · exact h
      · exact h
  | mergerGone => exact h
  | stored | notify | watchEnds | sync | read | build | recv | absorb | quiet =>
      exact h.sourceStepped htask (by intro hsend; cases hsend)

theorem JobInv.step (h : JobInv toLowercase kubernetesJob s) (event : JobDiscoveryEvent) :
    JobInv toLowercase kubernetesJob (JobDiscovery.step toLowercase kubernetesJob s event) := by
  cases event with
  | job event => exact h.jobStep event
  | source i event =>
      simp only [JobDiscovery.step]
      split
      · next task htask => exact h.sourceStep htask event
      · exact h

theorem jobDiscovery_invariant (toLowercase : String → String) (kubernetesJob : KubernetesJob deps)
    (events : List JobDiscoveryEvent) :
    JobInv toLowercase kubernetesJob (JobDiscovery.after toLowercase kubernetesJob events) :=
  Transition.run_invariant (fun _ event h => h.step event) (jobInv_init kubernetesJob) events

/-! ## Nothing on its way -/

/-- The discovery task waits, and no signal is there or to come. -/
def Kubernetes.Run.Settled (task : SdTask) (run : Run) : Prop :=
  run.phase = .waiting ∧ run.stores.Quiet task.readOrder

/-- Every source and the manager wait, and nothing that was sent or published is still to be noticed. -/
structure JobDiscovery.Settled (kubernetesJob : KubernetesJob deps) (s : JobDiscovery) : Prop where
  sources : ∀ i task, kubernetesJob.sources[i]? = some task → (s.runs i).Settled task
  channel : s.discovery.channel = []
  manager : s.discovery.manager = .waiting
  seen : s.discovery.groups.change ≠ .unseen

/-- The groups of the objects that are in the stores, source by source. -/
def currentGroups (toLowercase : String → String) (kubernetesJob : KubernetesJob deps)
    (s : JobDiscovery) (orders : Nat → Nat → IterationOrder ((String × String) × List Int32)) :
    List TargetGroup :=
  (kubernetesJob.sources.zipIdx.map fun source =>
    source.1.build toLowercase (orders source.2) (s.runs source.2).stores.value).flatten

theorem latest_eq_getLast (log : List (Nat × List TargetGroup)) (slot : Nat) :
    latest log slot = (((log.filter (·.1 == slot)).getLast?).map Prod.snd).getD [] := by
  rw [latest, Keyed.lastWith, ← List.head?_filter, List.filter_reverse, List.head?_reverse]

/-- What is published for the slot of a settled source. -/
theorem JobInv.latest_of_settled (h : JobInv toLowercase kubernetesJob s) {i : Nat} {task : SdTask}
    (htask : kubernetesJob.sources[i]? = some task) (hsettled : (s.runs i).Settled task) :
    ∃ orders, latest s.discovery.sent (fileSlots kubernetesJob.job.job + i) =
      task.build toLowercase orders (s.runs i).stores.value := by
  have hinv := h.sources i task htask
  obtain ⟨orders, hlast⟩ := hinv.inv.last_of_quiet hsettled.1 hsettled.2
  refine ⟨orders, ?_⟩
  rw [← kubernetesJob.slots i task htask, latest_eq_getLast, hinv.sent, hlast]
  rfl

/-- **The published groups are those of the objects in the stores.** -/
theorem JobInv.published_of_settled (h : JobInv toLowercase kubernetesJob s)
    (hsettled : s.Settled kubernetesJob) :
    ∃ orders, s.discovery.groups.value = staticGroups kubernetesJob.job.job ++
      (List.range (fileSlots kubernetesJob.job.job)).flatMap (latest s.discovery.sent) ++
      currentGroups toLowercase kubernetesJob s orders := by
  have hbuilt : ∀ i : Fin kubernetesJob.sources.length, ∃ orders,
      latest s.discovery.sent (fileSlots kubernetesJob.job.job + i) =
        kubernetesJob.sources[i].build toLowercase orders (s.runs i).stores.value := by
    intro i
    have htask : kubernetesJob.sources[i.1]? = some kubernetesJob.sources[i] :=
      List.getElem?_eq_getElem i.2
    exact h.latest_of_settled htask (hsettled.sources i _ htask)
  choose orders horders using hbuilt
  refine ⟨fun i => if hi : i < kubernetesJob.sources.length then orders ⟨i, hi⟩ else
    fun _ => ⟨id, fun _ => .rfl⟩, ?_⟩
  have hmerged : s.discovery.merged = s.discovery.sent := by
    rw [h.channel.order, hsettled.channel, List.append_nil]
  rw [h.channel.published, hmerged, slotCount_eq, List.range_add, List.flatMap_append,
    List.append_assoc]
  congr 2
  rw [currentGroups, List.flatMap_map, List.flatMap_def]
  congr 1
  refine List.ext_getElem (by simp) fun i hi hi' => ?_
  have hlt : i < kubernetesJob.sources.length := by simpa using hi
  rw [List.getElem_map, List.getElem_map, List.getElem_range, List.getElem_zipIdx]
  simp only [Nat.zero_add, hlt, dif_pos]
  exact horders ⟨i, hlt⟩

/-- **No change of a watched object is missed.** Once every source and the manager wait and nothing is
    on its way, exactly one scrape loop runs for each identity of the targets that the objects now in
    the stores describe, together with the static groups and the latest of `file_sd`, and no other
    loop. -/
theorem kubernetesJob_settles (toLowercase : String → String) (kubernetesJob : KubernetesJob deps)
    (events : List JobDiscoveryEvent)
    (hsettled : (JobDiscovery.after toLowercase kubernetesJob events).Settled kubernetesJob) :
    ∃ orders, let s := JobDiscovery.after toLowercase kubernetesJob events
      Pass.Correct kubernetesJob.job
        ⟨staticGroups kubernetesJob.job.job ++
          (List.range (fileSlots kubernetesJob.job.job)).flatMap (latest s.discovery.sent) ++
          currentGroups toLowercase kubernetesJob s orders, s.discovery.running⟩ := by
  have h := jobDiscovery_invariant toLowercase kubernetesJob events
  obtain ⟨orders, hpublished⟩ := h.published_of_settled hsettled
  obtain ⟨pass, ⟨hlast, hrunning⟩, hupToDate⟩ := h.loops.phase_waiting hsettled.manager
  have hcorrect := h.loops.passes pass (List.mem_of_getLast? hlast)
  have hsnapshot := hupToDate.eq_of_change hsettled.seen
  refine ⟨orders, ?_⟩
  show Pass.Correct kubernetesJob.job ⟨_, _⟩
  rw [← hpublished, ← hsnapshot, ← hrunning]
  exact hcorrect

/-- A pod with one container and its port. -/
def dbPod : Kubernetes.FullPod where
  metadata := { ns := some "default", name := some "db-0" }
  spec := some { containers := [{ name := "db", ports := some [{ containerPort := 9187 }] }] }
  status := some { podIp := some "10.0.0.7" }

def defaultPods : SdTask where
  config := { role := .pod, namespaces := { names := ["default"] } }
  slot := 0

/-- A job that scrapes the pods of one namespace. -/
def podJob : KubernetesJob fragmentDeps where
  job :=
    { job := { nodeJob with kubernetesSdConfigs := [{ role := .pod }] }
      global := {}, externalLabels := [], trackStaleness := false }
  sources := [defaultPods]
  entries := rfl
  slots := by
    intro i task htask
    obtain ⟨hi, rfl⟩ := List.getElem?_eq_some_iff.mp htask
    obtain rfl : i = 0 := Nat.lt_one_iff.mp hi
    rfl

/-- The pod appears after an empty initial list, and the job comes to rest. -/
def podAppears : List JobDiscoveryEvent :=
  [.source 0 (.stored (.pod 0) [] true), .source 0 (.notify (.pod 0)), .source 0 .sync,
    .source 0 .sync, .source 0 (.stored (.pod 0) [dbPod] false), .source 0 .read,
    .source 0 (.build fun _ => ⟨id, fun _ => .rfl⟩), .source 0 .send,
    .source 0 (.notify (.pod 0)), .job .merge, .source 0 .recv, .source 0 .absorb, .source 0 .quiet,
    .source 0 .read, .source 0 (.build fun _ => ⟨id, fun _ => .rfl⟩), .source 0 .send, .job .merge,
    .job .read, .job .start]

theorem podAppears_settled : (JobDiscovery.after id podJob podAppears).Settled podJob where
  sources := by
    intro i task htask
    obtain ⟨hi, rfl⟩ := List.getElem?_eq_some_iff.mp htask
    obtain rfl : i = 0 := Nat.lt_one_iff.mp hi
    show Run.Settled defaultPods _
    exact ⟨rfl, by decide +kernel, by decide +kernel⟩
  channel := by decide +kernel
  manager := by decide +kernel
  seen := by decide +kernel

/-- One loop runs, and it is the pod's. -/
theorem kubernetesJob_settles_podAppears :
    (JobDiscovery.after id podJob podAppears).discovery.running.length = 1 ∧
      ∃ orders, let s := JobDiscovery.after id podJob podAppears
        Pass.Correct podJob.job
          ⟨staticGroups podJob.job.job ++
            (List.range (fileSlots podJob.job.job)).flatMap (latest s.discovery.sent) ++
            currentGroups id podJob s orders, s.discovery.running⟩ :=
  ⟨by decide +kernel, kubernetesJob_settles id podJob podAppears podAppears_settled⟩

/-- No source sends before each of its stores was filled once, or its watch task was gone. -/
theorem kubernetesJob_syncs (toLowercase : String → String) (kubernetesJob : KubernetesJob deps)
    (events : List JobDiscoveryEvent) {i : Nat} {task : SdTask}
    (htask : kubernetesJob.sources[i]? = some task) :
    let s := JobDiscovery.after toLowercase kubernetesJob events
    s.discovery.sent.filter (·.1 == task.slot) = (s.runs i).sent ∧
      ((s.runs i).sent ≠ [] → (s.runs i).Filled task.syncOrder) := by
  have h := (jobDiscovery_invariant toLowercase kubernetesJob events).sources i task htask
  exact ⟨h.sent, h.inv.filled_of_sent⟩

theorem kubernetesJob_syncs_podAppears :
    let s := JobDiscovery.after id podJob podAppears
    (s.runs 0).sent.length = 2 ∧ (s.discovery.sent.filter (·.1 == defaultPods.slot) = (s.runs 0).sent ∧
      ((s.runs 0).sent ≠ [] → (s.runs 0).Filled defaultPods.syncOrder)) :=
  ⟨by decide +kernel, kubernetesJob_syncs id podJob podAppears
    (show podJob.sources[0]? = some defaultPods from rfl)⟩

end PromScrape
