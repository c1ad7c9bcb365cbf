import PromScrape.Library.Multimap
import PromScrape.Library.SortedMap
import PromScrape.Implementation.Targets

set_option autoImplicit false

/-! # Targets of `EndpointSlice`s (`src/sd_k8s/targets.rs`)

The Kubernetes objects with the fields that the builders read, and the target groups of a list of
slices: one group for each endpoint, port and address, then one for each container port of the
referenced pods that no slice port covers. A `HashMap` that is only looked up in is a function; the
one that is iterated, `seen_pods`, comes with the order in which that happens. -/

namespace PromScrape

open Multimap (IterationOrder)

/-! ## Label maps -/

def StringMap.get (labels : StringMap) (key : String) : Option String :=
  SortedMap.find key labels.entries

def StringMap.insert (labels : StringMap) (key value : String) : StringMap :=
  ⟨SortedMap.insert key value labels.entries, SortedMap.Sorted.insert labels.sorted key value⟩

def StringMap.remove (labels : StringMap) (key : String) : StringMap :=
  ⟨SortedMap.erase key labels.entries, SortedMap.Sorted.erase labels.sorted key⟩

/-- `if let Some(value) = value { labels.insert(key, value) }`. -/
def StringMap.insertSome (labels : StringMap) (key : String) : Option String → StringMap
  | some value => labels.insert key value
  | none => labels

/-- `labels.entry(key).or_insert(value)`. -/
def StringMap.orInsert (labels : StringMap) (key value : String) : StringMap :=
  if (labels.get key).isSome then labels else labels.insert key value

namespace Kubernetes

/-! ## Objects -/

structure OwnerReference where
  controller : Option Bool := none
  kind : String
  name : String

/-- `ns` is the field `namespace`. -/
structure ObjectMeta where
  ns : Option String := none
  name : Option String := none
  uid : Option String := none
  labels : Option StringMap := none
  annotations : Option StringMap := none
  ownerReferences : Option (List OwnerReference) := none

structure ContainerPort where
  containerPort : Int32
  name : Option String := none
  protocol : Option String := none

structure Container where
  name : String
  image : Option String := none
  ports : Option (List ContainerPort) := none

structure PodSpec where
  nodeName : Option String := none
  containers : List Container := []
  initContainers : Option (List Container) := none

structure PodCondition where
  type_ : String
  status : String

structure PodStatus where
  podIp : Option String := none
  phase : Option String := none
  hostIp : Option String := none
  conditions : Option (List PodCondition) := none

structure Pod where
  metadata : ObjectMeta
  spec : Option PodSpec := none
  status : Option PodStatus := none

structure Service where
  metadata : ObjectMeta

structure Node where
  metadata : ObjectMeta

structure EndpointPort where
  port : Option Int32 := none
  name : Option String := none
  protocol : Option String := none
  appProtocol : Option String := none

structure EndpointConditions where
  ready : Option Bool := none
  serving : Option Bool := none
  terminating : Option Bool := none

structure ObjectReference where
  kind : Option String := none
  ns : Option String := none
  name : Option String := none

structure Endpoint where
  addresses : List String
  conditions : Option EndpointConditions := none
  hostname : Option String := none
  targetRef : Option ObjectReference := none
  nodeName : Option String := none
  zone : Option String := none
  deprecatedTopology : Option StringMap := none

structure EndpointSlice where
  metadata : ObjectMeta
  addressType : String
  endpoints : Option (List Endpoint) := none
  ports : Option (List EndpointPort) := none

/-- The maps that the builders look objects up in; there is one of nodes only where node metadata is
to be attached. -/
structure Stores where
  services : String × String → Option Service
  pods : String × String → Option Pod
  nodes : Option (String → Option Node) := none

/-- `(namespace, name)`, where both are there. -/
def ObjectMeta.key? (metadata : ObjectMeta) : Option (String × String) := do
  let ns ← metadata.ns
  let name ← metadata.name
  return (ns, name)

/-- Collecting objects into a `HashMap`: a later object takes the place of an earlier one. -/
def collectBy {α κ : Type} [DecidableEq κ] (key? : α → Option κ) (objects : List α) (key : κ) :
    Option α :=
  (objects.filter fun object => key? object = some key).getLast?

/-- The maps that `build` makes of the objects in the stores. -/
def Stores.collect (services : List Service) (pods : List Pod) (nodes : Option (List Node)) :
    Stores where
  services := collectBy (·.metadata.key?) services
  pods := collectBy (·.metadata.key?) pods
  nodes := nodes.map fun nodes => collectBy (·.metadata.name) nodes

/-! ## Labels of objects -/

/-- `META_PREFIX`. -/
def metaPrefix : String := "__meta_kubernetes_"

/-- `SERVICE_NAME_LABEL`. -/
def serviceNameLabel : String := "kubernetes.io/service-name"

/-- A label name that begins with `META_PREFIX`. -/
def metaKey (name : String) : String := metaPrefix ++ name

def sanitizeLabelName (name : String) : String :=
  name.map fun c => if c.isAlphanum || c = '_' then c else '_'

def joinHostPort (host port : String) : String :=
  if host.toList.contains ':' then "[" ++ host ++ "]:" ++ port else host ++ ":" ++ port

/-- The loop over a map of an object: for each entry a label with its value and one that says that
the entry is there, both named after its key. -/
def insertSanitized (labels : StringMap) (entries : Option StringMap) (value present : String) :
    StringMap :=
  (entries.getD .empty).entries.foldl
    (fun labels entry =>
      let sanitized := sanitizeLabelName entry.1
      (labels.insert (metaKey (value ++ sanitized)) entry.2).insert
        (metaKey (present ++ sanitized)) "true") labels

def addObjectAnnotationsAndLabels (labels : StringMap) (metadata : ObjectMeta) (role : String) :
    StringMap :=
  let labels :=
    insertSanitized labels metadata.labels (role ++ "_label_") (role ++ "_labelpresent_")
  insertSanitized labels metadata.annotations (role ++ "_annotation_")
    (role ++ "_annotationpresent_")

def addObjectMetaLabels (labels : StringMap) (metadata : ObjectMeta) (role : String) : StringMap :=
  let labels := labels.insert (metaKey (role ++ "_name")) (metadata.name.getD "")
  addObjectAnnotationsAndLabels labels metadata role

def addNodeLabels (labels : StringMap) (nodes : Option (String → Option Node))
    (nodeName : Option String) : StringMap :=
  match nodes, nodeName with
  | some nodes, some nodeName =>
      if nodeName.isEmpty then labels
      else
        match nodes nodeName with
        | some node => addObjectMetaLabels labels node.metadata "node"
        | none => labels
  | _, _ => labels

def controllerOf (metadata : ObjectMeta) : Option OwnerReference := do
  let owners ← metadata.ownerReferences
  owners.find? fun owner => owner.controller == some true

/-- The pod's IP, empty while it has none. -/
def Pod.ip (pod : Pod) : String := (pod.status.bind (·.podIp)).getD ""

/-- Regular containers followed by init containers, with whether each is an init container. -/
def allContainers (pod : Pod) : List (Container × Bool) :=
  let regular := (pod.spec.map (·.containers)).getD []
  let init := (pod.spec.bind (·.initContainers)).getD []
  regular.map (·, false) ++ init.map (·, true)

/-- The ports of all containers, in the order of the two nested loops. -/
def containerPorts (pod : Pod) : List ((Container × Bool) × ContainerPort) :=
  (allContainers pod).flatMap fun container => (container.1.ports.getD []).map (container, ·)

/-- `single_target`: the address moves out of the labels. -/
def singleTarget (labels : StringMap) : TargetGroup where
  targets := [(labels.get (metaKey "address")).getD ""]
  labels := labels.remove (metaKey "address")

section

variable (toLowercase : String → String)

def podReady (pod : Pod) : String :=
  let conditions := (pod.status.bind (·.conditions)).getD []
  match conditions.find? fun condition => condition.type_ == "Ready" with
  | some condition => toLowercase condition.status
  | none => "unknown"

def podLabels (pod : Pod) : StringMap :=
  let labels := StringMap.empty.insert (metaKey "pod_ip") pod.ip
  let labels := labels.insert (metaKey "pod_ready") (podReady toLowercase pod)
  let labels := labels.insert (metaKey "pod_phase") ((pod.status.bind (·.phase)).getD "")
  let labels := labels.insert (metaKey "pod_node_name") ((pod.spec.bind (·.nodeName)).getD "")
  let labels := labels.insert (metaKey "pod_host_ip") ((pod.status.bind (·.hostIp)).getD "")
  let labels := labels.insert (metaKey "pod_uid") (pod.metadata.uid.getD "")
  let labels := addObjectMetaLabels labels pod.metadata "pod"
  match controllerOf pod.metadata with
  | some owner =>
      let labels :=
        if owner.kind.isEmpty then labels
        else labels.insert (metaKey "pod_controller_kind") owner.kind
      if owner.name.isEmpty then labels
      else labels.insert (metaKey "pod_controller_name") owner.name
  | none => labels

/-- The six labels of a container port. -/
def insertContainerPort (labels : StringMap) (entry : (Container × Bool) × ContainerPort) :
    StringMap :=
  let (container, isInit) := entry.1
  let labels := labels.insert (metaKey "pod_container_name") container.name
  let labels := labels.insert (metaKey "pod_container_image") (container.image.getD "")
  let labels := labels.insert (metaKey "pod_container_port_name") (entry.2.name.getD "")
  let labels :=
    labels.insert (metaKey "pod_container_port_number") (toString entry.2.containerPort)
  let labels := labels.insert (metaKey "pod_container_port_protocol") (entry.2.protocol.getD "")
  labels.insert (metaKey "pod_container_init") (toString isInit)

/-! ## One endpoint, port and address -/

/-- The address of the target: `addr` itself where the port has no number. -/
def endpointAddress (addr : String) (port : EndpointPort) : String :=
  match port.port with
  | some number => joinHostPort addr (toString number)
  | none => addr

/-- Node metadata: from the reference where it is to a node, otherwise from the endpoint's node
name. -/
def insertNode (labels : StringMap) (stores : Stores) (endpoint : Endpoint) : StringMap :=
  match endpoint.targetRef with
  | some ref =>
      if ref.kind == some "Node" then addNodeLabels labels stores.nodes ref.name
      else addNodeLabels labels stores.nodes endpoint.nodeName
  | none => addNodeLabels labels stores.nodes endpoint.nodeName

/-- The labels of the port, the endpoint and its node. -/
def insertEndpoint (labels : StringMap) (stores : Stores) (addr : String) (endpoint : Endpoint)
    (port : EndpointPort) : StringMap :=
  let labels := labels.insert (metaKey "address") (endpointAddress addr port)
  let labels := labels.insertSome (metaKey "endpointslice_port_name") port.name
  let labels := labels.insertSome (metaKey "endpointslice_port_protocol") port.protocol
  let labels := labels.insertSome (metaKey "endpointslice_port") (port.port.map toString)
  let labels := labels.insertSome (metaKey "endpointslice_port_app_protocol") port.appProtocol
  let conditions := endpoint.conditions.getD {}
  let labels := labels.insertSome (metaKey "endpointslice_endpoint_conditions_ready")
    (conditions.ready.map toString)
  let labels := labels.insertSome (metaKey "endpointslice_endpoint_conditions_serving")
    (conditions.serving.map toString)
  let labels := labels.insertSome (metaKey "endpointslice_endpoint_conditions_terminating")
    (conditions.terminating.map toString)
  let labels := labels.insertSome (metaKey "endpointslice_endpoint_hostname") endpoint.hostname
  let labels := labels.insertSome (metaKey "endpointslice_address_target_kind")
    (endpoint.targetRef.map (·.kind.getD ""))
  let labels := labels.insertSome (metaKey "endpointslice_address_target_name")
    (endpoint.targetRef.map (·.name.getD ""))
  let labels := labels.insertSome (metaKey "endpointslice_endpoint_node_name") endpoint.nodeName
  let labels := labels.insertSome (metaKey "endpointslice_endpoint_zone") endpoint.zone
  let labels := insertSanitized labels endpoint.deprecatedTopology
    "endpointslice_endpoint_topology_" "endpointslice_endpoint_topology_present_"
  insertNode labels stores endpoint

/-- The pod that the endpoint refers to, where it refers to one that is in the store. -/
def resolvePod (stores : Stores) (endpoint : Endpoint) : Option Pod := do
  let ref ← endpoint.targetRef
  if ref.kind != some "Pod" then none
  else
    let ns ← ref.ns
    let name ← ref.name
    stores.pods (ns, name)

/-- The labels of the pod, which give way to those that are there, and those of the first container
port with the number of the endpoint port. -/
def insertPod (labels : StringMap) (pod : Pod) (port : EndpointPort) : StringMap :=
  let labels := (podLabels toLowercase pod).entries.foldl
    (fun labels entry => labels.orInsert entry.1 entry.2) labels
  match port.port with
  | some number =>
      match (containerPorts pod).find? fun entry => entry.2.containerPort == number with
      | some entry => insertContainerPort labels entry
      | none => labels
  | none => labels

/-- `seen_pods`: the port numbers recorded for each pod. -/
abbrev SeenPods := List ((String × String) × List Int32)

def buildEndpointTarget (labels : StringMap) (stores : Stores) (addr : String) (endpoint : Endpoint)
    (port : EndpointPort) (seenPods : SeenPods) : StringMap × SeenPods :=
  let labels := insertEndpoint labels stores addr endpoint port
  match resolvePod stores endpoint with
  | none => (labels, seenPods)
  | some pod =>
      let key := (pod.metadata.ns.getD "", pod.metadata.name.getD "")
      (insertPod toLowercase labels pod port,
        Multimap.extend seenPods (key, port.port.toList))

/-! ## The slices -/

/-- The service that owns the slice, by the slice's label. -/
def owningService (stores : Stores) (slice : EndpointSlice) : Option Service := do
  let labels ← slice.metadata.labels
  let serviceName ← labels.get serviceNameLabel
  stores.services (slice.metadata.ns.getD "", serviceName)

/-- The labels of the slice and its service. -/
def sliceLabels (stores : Stores) (slice : EndpointSlice) : StringMap :=
  let labels := StringMap.empty.insert (metaKey "namespace") (slice.metadata.ns.getD "")
  let labels := labels.insert (metaKey "endpointslice_address_type") slice.addressType
  let labels := addObjectMetaLabels labels slice.metadata "endpointslice"
  match owningService stores slice with
  | some service =>
      let labels := labels.insert (metaKey "namespace") (service.metadata.ns.getD "")
      addObjectMetaLabels labels service.metadata "service"
  | none => labels

/-- The body of the innermost loop. -/
def pushEndpointTarget (stores : Stores) (slice : EndpointSlice) (endpoint : Endpoint)
    (port : EndpointPort) (state : List TargetGroup × SeenPods) (addr : String) :
    List TargetGroup × SeenPods :=
  let target := buildEndpointTarget toLowercase (sliceLabels stores slice) stores addr endpoint port
    state.2
  (state.1 ++ [singleTarget target.1], target.2)

/-- The loop over the endpoints, ports and addresses of a slice. -/
def pushEndpointTargets (stores : Stores) (slice : EndpointSlice)
    (groups : List TargetGroup) : List TargetGroup × SeenPods :=
  (slice.endpoints.getD []).foldl
    (fun state endpoint =>
      (slice.ports.getD []).foldl
        (fun state port =>
          endpoint.addresses.foldl (pushEndpointTarget toLowercase stores slice endpoint port)
            state) state) (groups, [])

/-- The group of a container port that the slice did not cover. -/
def additionalTarget (stores : Stores) (slice : EndpointSlice) (pod : Pod)
    (entry : (Container × Bool) × ContainerPort) : TargetGroup :=
  let addr := joinHostPort pod.ip (toString entry.2.containerPort)
  let labels := (podLabels toLowercase pod).entries.foldl
    (fun labels entry => labels.insert entry.1 entry.2) (sliceLabels stores slice)
  let labels := labels.insert (metaKey "address") addr
  singleTarget (insertContainerPort labels entry)

/-- The groups of an entry of `seen_pods`. -/
def additionalTargets (stores : Stores) (slice : EndpointSlice)
    (seen : (String × String) × List Int32) : List TargetGroup :=
  match stores.pods seen.1 with
  | none => []
  | some pod =>
      if pod.ip.isEmpty then []
      else
        ((containerPorts pod).filter fun entry => !seen.2.contains entry.2.containerPort).map
          (additionalTarget toLowercase stores slice pod)

/-- The body of the loop over the slices; `order` is that of this slice's `seen_pods`. -/
def pushSliceTargets (stores : Stores) (groups : List TargetGroup)
    (slice : EndpointSlice × IterationOrder ((String × String) × List Int32)) :
    List TargetGroup :=
  let state := pushEndpointTargets toLowercase stores slice.1 groups
  (slice.2.walk state.2).foldl
    (fun groups seen => groups ++ additionalTargets toLowercase stores slice.1 seen) state.1

/-- `endpointslice_target_groups`; `orders i` is the order of the `i`th slice's `seen_pods`. -/
def endpointsliceTargetGroups
    (orders : Nat → IterationOrder ((String × String) × List Int32))
    (slices : List EndpointSlice) (stores : Stores) : List TargetGroup :=
  (slices.zipIdx.map fun slice => (slice.1, orders slice.2)).foldl
    (pushSliceTargets toLowercase stores) []

end

end Kubernetes

end PromScrape
