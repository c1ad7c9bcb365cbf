import PromScrape.Implementation.Kubernetes

set_option autoImplicit false

/-! # Where the pods behind `EndpointSlice`s are scraped

As multisets, since the order of the groups means nothing: one group for each endpoint, port and
address of a slice, and one for each container port of a referenced pod whose number no port of the
slice has. Labels are those that the builders give; they do not depend on the pods seen before. -/

namespace PromScrape.Kubernetes

/-- The namespace and name of the pod that the endpoint refers to. -/
def Endpoint.podRef (endpoint : Endpoint) : Option (String × String) := do
  let ref ← endpoint.targetRef.filter fun ref => ref.kind == some "Pod"
  let ns ← ref.ns
  let name ← ref.name
  return (ns, name)

/-- Pods are found under their own namespace and name. -/
def Stores.PodsByName (stores : Stores) : Prop :=
  ∀ key pod, stores.pods key = some pod → pod.metadata.key? = some key

namespace EndpointSlice

/-- Every endpoint with every port of the slice and every address of its own. -/
def triples (slice : EndpointSlice) : List (Endpoint × EndpointPort × String) :=
  (slice.endpoints.getD []).flatMap fun endpoint =>
    (slice.ports.getD []).flatMap fun port => endpoint.addresses.map (endpoint, port, ·)

def portNumbers (slice : EndpointSlice) : List Int32 := (slice.ports.getD []).filterMap (·.port)

/-- The pods that the endpoints of the triples refer to, each of them once. -/
def podRefs (slice : EndpointSlice) : Finset (String × String) :=
  (slice.triples.filterMap (·.1.podRef)).toFinset

end EndpointSlice

section

variable (toLowercase : String → String) (stores : Stores) (slice : EndpointSlice)

/-- The group of a triple. -/
def endpointGroup (triple : Endpoint × EndpointPort × String) : TargetGroup where
  targets := [endpointAddress triple.2.2 triple.2.1]
  labels :=
    (buildEndpointTarget toLowercase (sliceLabels stores slice) stores triple.2.2 triple.1 triple.2.1
      []).1.remove (metaKey "address")

/-- The group of a container port. -/
def containerPortGroup (pod : Pod) (entry : (Container × Bool) × ContainerPort) :
    TargetGroup where
  targets := [joinHostPort pod.ip (toString entry.2.containerPort)]
  labels := (additionalTarget toLowercase stores slice pod entry).labels

/-- The groups of the container ports of a pod that no port of the slice covers; none while the pod
has no IP. -/
def uncoveredGroups (pod : Pod) : Multiset TargetGroup :=
  if pod.ip = "" then 0
  else
    Multiset.map (containerPortGroup toLowercase stores slice pod)
      ((containerPorts pod).filter fun entry => entry.2.containerPort ∉ slice.portNumbers)

/-- The groups of a slice. A reference to a pod that is not in the store adds nothing. -/
def sliceGroups : Multiset TargetGroup :=
  Multiset.map (endpointGroup toLowercase stores slice) slice.triples +
    ∑ key ∈ slice.podRefs, ((stores.pods key).map (uncoveredGroups toLowercase stores slice)).getD 0

end

end PromScrape.Kubernetes
