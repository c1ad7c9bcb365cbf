import PromScrape.Implementation.Kubernetes

set_option autoImplicit false

/-! # Targets of pods (`pod_target_groups` in `src/sd_k8s/targets.rs`)

One group for each container port of every pod with an IP, and one without a port for a container that
has none. Where node metadata is attached, only pods on a known node count. -/

namespace PromScrape.Kubernetes

structure ContainerStatus where
  name : String
  containerId : Option String := none

/-- The status of a pod with the statuses of its containers, which only the pod role reads. -/
structure FullPodStatus extends PodStatus where
  containerStatuses : Option (List ContainerStatus) := none
  initContainerStatuses : Option (List ContainerStatus) := none

/-- A pod with all that either role reads. -/
structure FullPod where
  metadata : ObjectMeta
  spec : Option PodSpec := none
  status : Option FullPodStatus := none

/-- What both roles read. -/
def FullPod.pod (pod : FullPod) : Pod where
  metadata := pod.metadata
  spec := pod.spec
  status := pod.status.map (·.toPodStatus)

def FullPod.nodeName (pod : FullPod) : Option String := pod.spec.bind (·.nodeName)

/-- The statuses of the init containers, or those of the others. -/
def FullPod.statuses (pod : FullPod) (isInit : Bool) : Option (List ContainerStatus) :=
  if isInit then pod.status.bind (·.initContainerStatuses)
  else pod.status.bind (·.containerStatuses)

def findContainerId (statuses : Option (List ContainerStatus)) (name : String) : String :=
  (((statuses.getD []).find? fun status => status.name == name).bind (·.containerId)).getD ""

/-- Node metadata is not attached, or the pod is on a node that is in the store. -/
def onKnownNode (nodes : Option (String → Option Node)) (nodeName : Option String) : Bool :=
  match nodes with
  | none => true
  | some nodes =>
      match nodeName with
      | some name => (nodes name).isSome
      | none => false

section

variable (toLowercase : String → String) (nodes : Option (String → Option Node)) (pod : FullPod)

/-- The labels of the pod that all its targets have. -/
def podBase : StringMap :=
  let base := podLabels toLowercase pod.pod
  let base := base.insert (metaKey "namespace") (pod.metadata.ns.getD "")
  addNodeLabels base nodes pod.nodeName

/-- The target of a container without ports. -/
def anonymousTarget (container : Container × Bool) : TargetGroup :=
  let containerId := findContainerId (pod.statuses container.2) container.1.name
  let labels := (podBase toLowercase nodes pod).insert (metaKey "address") pod.pod.ip
  let labels := labels.insert (metaKey "pod_container_name") container.1.name
  let labels := labels.insert (metaKey "pod_container_id") containerId
  let labels := labels.insert (metaKey "pod_container_image") (container.1.image.getD "")
  let labels := labels.insert (metaKey "pod_container_init") (toString container.2)
  singleTarget labels

/-- The target of a container port. -/
def portTarget (container : Container × Bool) (port : ContainerPort) : TargetGroup :=
  let containerId := findContainerId (pod.statuses container.2) container.1.name
  let portNumber := toString port.containerPort
  let labels := (podBase toLowercase nodes pod).insert (metaKey "address")
    (joinHostPort pod.pod.ip portNumber)
  let labels := labels.insert (metaKey "pod_container_name") container.1.name
  let labels := labels.insert (metaKey "pod_container_id") containerId
  let labels := labels.insert (metaKey "pod_container_image") (container.1.image.getD "")
  let labels := labels.insert (metaKey "pod_container_port_number") portNumber
  let labels := labels.insert (metaKey "pod_container_port_name") (port.name.getD "")
  let labels := labels.insert (metaKey "pod_container_port_protocol") (port.protocol.getD "")
  let labels := labels.insert (metaKey "pod_container_init") (toString container.2)
  singleTarget labels

/-- The body of the loop over the containers. -/
def containerTargets (container : Container × Bool) : List TargetGroup :=
  match container.1.ports.getD [] with
  | [] => [anonymousTarget toLowercase nodes pod container]
  | ports => ports.map (portTarget toLowercase nodes pod container)

/-- The body of the loop over the pods. -/
def podTargets : List TargetGroup :=
  if pod.pod.ip.isEmpty then []
  else if onKnownNode nodes pod.nodeName then
    (allContainers pod.pod).flatMap (containerTargets toLowercase nodes pod)
  else []

end

def podTargetGroups (toLowercase : String → String) (pods : List FullPod)
    (nodes : Option (String → Option Node)) : List TargetGroup :=
  pods.flatMap (podTargets toLowercase nodes)

end PromScrape.Kubernetes
