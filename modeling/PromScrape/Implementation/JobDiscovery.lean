import PromScrape.Implementation.KubernetesRun

set_option autoImplicit false

/-! # A job with its Kubernetes sources (`watch` in `src/sd.rs` with `run` in `src/sd_k8s.rs`)

The system of `Discovery`, where the updates of the Kubernetes slots are those that the discovery tasks
of these slots send. A task sends when the channel to the merger has room, and holds its sender until it
returns. -/

namespace PromScrape

open Kubernetes (SdTask Run RunEvent)

/-- The slots before those of the Kubernetes sources. -/
def fileSlots {E : Regex.Engine} (job : ScrapeConfig E) : Nat := (!job.fileSdConfigs.isEmpty).toNat

/-- A job and, for each entry of `kubernetes_sd_configs`, the discovery task that `watch` spawns. -/
structure KubernetesJob (deps : RelabelDeps) where
  job : JobTask deps
  sources : List SdTask
  entries : job.job.kubernetesSdConfigs = sources.map (·.config.toKubernetesSdConfig)
  slots : ∀ i task, sources[i]? = some task → task.slot = fileSlots job.job + i

structure JobDiscovery where
  discovery : Discovery
  /-- The run of each source. -/
  runs : Nat → Run

inductive JobDiscoveryEvent where
  /-- An event of the merger, of the manager or of the `file_sd` task. -/
  | job (event : DiscoveryEvent)
  /-- An event of a Kubernetes source. -/
  | source (i : Nat) (event : RunEvent)

namespace JobDiscovery

variable {deps : RelabelDeps}

def init (kubernetesJob : KubernetesJob deps) : JobDiscovery where
  discovery := .init kubernetesJob.job
  runs i := ((kubernetesJob.sources[i]?).map Run.init).getD { phase := .stopped }

/-- The run of the source of this slot has returned, which drops its sender. -/
def returned (kubernetesJob : KubernetesJob deps) (s : JobDiscovery) (slot : Nat) : Bool :=
  match (s.runs (slot - fileSlots kubernetesJob.job.job)).phase with
  | .stopped => true
  | _ => false

def jobStep (kubernetesJob : KubernetesJob deps) (s : JobDiscovery) (event : DiscoveryEvent) :
    JobDiscovery :=
  let stepped : JobDiscovery :=
    { s with discovery := Discovery.step kubernetesJob.job s.discovery event }
  match event with
  | .update slot _ => if slot < fileSlots kubernetesJob.job.job then stepped else s
  | .sourceEnds slot =>
      if slot < fileSlots kubernetesJob.job.job ∨ s.returned kubernetesJob slot = true then stepped
      else s
  | _ => stepped

def sourceStep (toLowercase : String → String) (kubernetesJob : KubernetesJob deps)
    (s : JobDiscovery) (i : Nat) (task : SdTask) (event : RunEvent) : JobDiscovery :=
  let stepped : JobDiscovery :=
    { s with runs := Function.update s.runs i (Run.step toLowercase task (s.runs i) event) }
  match event with
  | .send =>
      match (s.runs i).phase with
      | .sending groups =>
          if s.discovery.channel.length < slotCount kubernetesJob.job.job * 2 then
            { stepped with discovery := s.discovery.update kubernetesJob.job task.slot groups }
          else s
      | _ => s
  -- the merger does not end while a source holds a sender
  | .mergerGone => s
  | _ => stepped

def step (toLowercase : String → String) (kubernetesJob : KubernetesJob deps) (s : JobDiscovery) :
    JobDiscoveryEvent → JobDiscovery
  | .job event => s.jobStep kubernetesJob event
  | .source i event =>
      match kubernetesJob.sources[i]? with
      | some task => s.sourceStep toLowercase kubernetesJob i task event
      | none => s

/-- The job after some schedule. -/
def after (toLowercase : String → String) (kubernetesJob : KubernetesJob deps)
    (events : List JobDiscoveryEvent) : JobDiscovery :=
  Transition.run (step toLowercase kubernetesJob) (init kubernetesJob) events

end JobDiscovery

end PromScrape
