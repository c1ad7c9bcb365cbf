import PromScrape.Library.Signalled
import PromScrape.Implementation.Size
import PromScrape.Implementation.PodTargets
import PromScrape.Implementation.Discovery

set_option autoImplicit false

/-! # Kubernetes discovery (`run` in `src/sd_k8s.rs`)

For each namespace and kind of object a watch task keeps a store up to date and, after every event,
puts a signal into a channel, dropping it where the channel is full. The discovery task waits for all
stores to be filled once, then forever reads them one after the other, builds the target groups, sends
them, waits for a signal and takes what signals there are until none came for a while. Watch tasks
and discovery task run in any order, so the system is a step function over events. This is the time
before the tasks are aborted. The channels are `tokio`'s, the stores `kube`'s; what is in a store is
the list of objects that `state` returns.

`sent` is a log for the proofs. -/

namespace PromScrape.Kubernetes

open Multimap (IterationOrder)

/-! ## Configuration -/

structure NamespaceDiscovery where
  ownNamespace : Bool := false
  names : List String := []

structure AttachMetadata where
  node : Bool := false

/-- `KubernetesSdConfig` with what only `run` reads. -/
structure SdConfig extends KubernetesSdConfig where
  namespaces : NamespaceDiscovery := {}
  attachMetadata : AttachMetadata := {}

def serviceAccountNamespaceFile : String := "/var/run/secrets/kubernetes.io/serviceaccount/namespace"

/-- The namespaces to watch; `none` means all of them. `own` is what reading the file of the service
account gives. -/
def namespaces (config : SdConfig) (own : Except String String) :
    Except String (List (Option String)) := do
  let names := config.namespaces.names.map some
  let names ←
    if config.namespaces.ownNamespace then
      match own with
      | .ok own => pure (names ++ [some (PromSize.trim own)])
      | .error err => throw ("reading " ++ serviceAccountNamespaceFile ++ ": " ++ err)
    else pure names
  let names := if names.isEmpty then [none] else names
  -- `dedup` drops what equals its neighbour
  return names.destutter (· ≠ ·)

/-! ## Stores -/

/-- The stores of a run: one of nodes, and one for each kind and namespace. -/
inductive StoreKey where
  | node
  | pod (ns : Nat)
  | slice (ns : Nat)
  | service (ns : Nat)
deriving DecidableEq, Repr

abbrev StoreKey.Object : StoreKey → Type
  | .node => Node
  | .pod _ => FullPod
  | .slice _ => EndpointSlice
  | .service _ => Service

abbrev Contents : Type := (key : StoreKey) → List key.Object

/-- The arguments of `run` that decide what it sends, and what it finds when it starts. -/
structure SdTask where
  config : SdConfig
  slot : Nat
  /-- `shared_client` gives a client. -/
  client : Bool := true
  /-- What reading the file of the service account gives. -/
  ownNamespace : Except String String := .ok ""

namespace SdTask

variable (task : SdTask)

def watched : Except String (List (Option String)) := namespaces task.config task.ownNamespace

/-- The indices of the namespaces to watch. -/
def indices : List Nat := List.range (task.watched.toOption.getD []).length

def nodeKeys : List StoreKey := if task.config.attachMetadata.node then [.node] else []

def podKeys : List StoreKey := task.indices.map .pod

def sliceKeys : List StoreKey :=
  if task.config.role = .endpointslice then task.indices.map .slice else []

def serviceKeys : List StoreKey :=
  if task.config.role = .endpointslice then task.indices.map .service else []

/-- The order in which the stores are waited for. -/
def syncOrder : List StoreKey :=
  task.podKeys ++ task.sliceKeys ++ task.serviceKeys ++ task.nodeKeys

/-- The order in which `build` reads them. -/
def readOrder : List StoreKey :=
  task.nodeKeys ++ task.podKeys ++ task.sliceKeys ++ task.serviceKeys

/-- `build`; `orders` are those in which the maps of the slices are walked. -/
def build (toLowercase : String → String)
    (orders : Nat → IterationOrder ((String × String) × List Int32)) (contents : Contents) :
    List TargetGroup :=
  let nodes : Option (List Node) :=
    if task.config.attachMetadata.node then some (contents .node) else none
  let pods : List FullPod := task.indices.flatMap fun ns => contents (.pod ns)
  match task.config.role with
  | .pod => podTargetGroups toLowercase pods (nodes.map (collectBy (·.metadata.name)))
  | .endpointslice =>
      let slices : List EndpointSlice := task.indices.flatMap fun ns => contents (.slice ns)
      let services : List Service := task.indices.flatMap fun ns => contents (.service ns)
      endpointsliceTargetGroups toLowercase orders slices
        (Stores.collect services (pods.map FullPod.pod) nodes)
  -- rejected at config validation
  | _ => []

end SdTask

/-! ## State -/

/-- Where the discovery task is. -/
inductive RunPhase where
  /-- Waiting for the stores of `rest` to be filled. -/
  | syncing (rest : List StoreKey)
  /-- In `build`, with the stores of `rest` still to be read. -/
  | reading (rest : List StoreKey) (contents : Contents)
  /-- Waiting for room in the channel to the merger. -/
  | sending (groups : List TargetGroup)
  /-- Waiting for a change. -/
  | waiting
  /-- Taking the signals of a burst. -/
  | absorbing
  /-- Returned. -/
  | stopped

structure Run where
  stores : Signalled.Sources StoreKey fun key => List key.Object :=
    Signalled.Sources.init fun _ => []
  /-- The store has had its initial list. -/
  ready : StoreKey → Bool := fun _ => false
  /-- The watch task still runs. -/
  watching : StoreKey → Bool := fun _ => true
  phase : RunPhase
  sent : List (Nat × List TargetGroup) := []

inductive RunEvent where
  /-- The reflector applies an event of the API server to its store; `synced` if with it the initial
  list is complete. -/
  | stored (key : StoreKey) (contents : List key.Object) (synced : Bool)
  /-- The watch task sends its signal. -/
  | notify (key : StoreKey)
  /-- The watch task ends. -/
  | watchEnds (key : StoreKey)
  /-- The discovery task looks whether the next store is filled. -/
  | sync
  /-- It reads the next store. -/
  | read
  /-- It has read all of them. -/
  | build (orders : Nat → IterationOrder ((String × String) × List Int32))
  /-- The groups go into the channel to the merger. -/
  | send
  /-- There is no merger. -/
  | mergerGone
  /-- It looks for a signal. -/
  | recv
  /-- It looks for another signal of the burst. -/
  | absorb
  /-- None came for `DEBOUNCE`. -/
  | quiet

/-! ## Steps -/

/-- The signals that the channel holds. -/
def notifyCapacity : Nat := 64

namespace Run

/-- Without a client or without namespaces the task returns at once. -/
def init (task : SdTask) : Run :=
  if task.client && task.watched.toBool then { phase := .syncing task.syncOrder }
  else { phase := .stopped }

/-- A watch task that owes a signal sends it before it takes the next event. -/
def stored (s : Run) (key : StoreKey) (contents : List key.Object) (synced : Bool) : Run :=
  if s.watching key && !s.stores.owes key then
    { s with
      stores := s.stores.change key contents
      ready := if synced then Function.update s.ready key true else s.ready }
  else s

def watchEnds (s : Run) (key : StoreKey) : Run :=
  if s.stores.owes key then s
  else { s with watching := Function.update s.watching key false }

/-- The body of the loops with `wait_until_ready`, which gives up on a store that nobody fills. -/
def sync (task : SdTask) (s : Run) : Run :=
  match s.phase with
  | .syncing [] => { s with phase := .reading task.readOrder fun _ => [] }
  | .syncing (key :: rest) =>
      if s.ready key || !s.watching key then { s with phase := .syncing rest } else s
  | _ => s

def read (s : Run) : Run :=
  match s.phase with
  | .reading (key :: rest) contents =>
      { s with phase := .reading rest (Function.update contents key (s.stores.value key)) }
  | _ => s

def build (toLowercase : String → String) (task : SdTask)
    (orders : Nat → IterationOrder ((String × String) × List Int32)) (s : Run) : Run :=
  match s.phase with
  | .reading [] contents => { s with phase := .sending (task.build toLowercase orders contents) }
  | _ => s

def send (task : SdTask) (s : Run) : Run :=
  match s.phase with
  | .sending groups => { s with phase := .waiting, sent := s.sent ++ [(task.slot, groups)] }
  | _ => s

def mergerGone (s : Run) : Run :=
  match s.phase with
  | .sending _ => { s with phase := .stopped }
  | _ => s

/-- Only the watch tasks hold senders of the channel. -/
def closed (task : SdTask) (s : Run) : Bool := task.readOrder.all (!s.watching ·)

def recv (task : SdTask) (s : Run) : Run :=
  match s.phase with
  | .waiting =>
      if 0 < s.stores.signals then { s with stores := s.stores.receive, phase := .absorbing }
      else if s.closed task then { s with phase := .stopped }
      else s
  | _ => s

def absorb (task : SdTask) (s : Run) : Run :=
  match s.phase with
  | .absorbing =>
      if 0 < s.stores.signals then { s with stores := s.stores.receive }
      else if s.closed task then { s with phase := .reading task.readOrder fun _ => [] }
      else s
  | _ => s

def quiet (task : SdTask) (s : Run) : Run :=
  match s.phase with
  | .absorbing => { s with phase := .reading task.readOrder fun _ => [] }
  | _ => s

def step (toLowercase : String → String) (task : SdTask) (s : Run) : RunEvent → Run
  | .stored key contents synced => s.stored key contents synced
  | .notify key => { s with stores := s.stores.signal notifyCapacity key }
  | .watchEnds key => s.watchEnds key
  | .sync => s.sync task
  | .read => s.read
  | .build orders => s.build toLowercase task orders
  | .send => s.send task
  | .mergerGone => s.mergerGone
  | .recv => s.recv task
  | .absorb => s.absorb task
  | .quiet => s.quiet task

end Run

end PromScrape.Kubernetes
