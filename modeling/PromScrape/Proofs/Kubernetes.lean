import PromScrape.Spec.Kubernetes

set_option autoImplicit false

/-! # The targets of slices are as specified

The address of a target is inserted under a key that no later label has. The labels of a triple do
not depend on the pods seen before, so the loop over the triples pushes one group for each and
collects port numbers under pods on the side. A pod that is seen is seen through an endpoint that
goes through all ports of the slice, so the numbers under it are those of the slice; with one entry a
pod, in whatever order, the second loop then adds what no port of the slice covers. -/

namespace PromScrape

open Multimap (IterationOrder)

/-! ## Label maps -/

section StringMap

variable {labels : StringMap} {key k : String} {value v : String}

theorem StringMap.get_insert_self : (labels.insert key value).get key = some value := by
  rw [StringMap.get, StringMap.insert, SortedMap.find_insert, if_pos rfl]

theorem StringMap.get_insert_of_ne (h : key ≠ k) :
    (labels.insert key value).get k = labels.get k := by
  rw [StringMap.get, StringMap.insert, SortedMap.find_insert, if_neg h, StringMap.get]

theorem StringMap.get_insertSome_of_ne {value : Option String} (h : key ≠ k) :
    (labels.insertSome key value).get k = labels.get k := by
  cases value with
  | none => rfl
  | some value => exact get_insert_of_ne h

/-- `or_insert` leaves what is there. -/
theorem StringMap.get_orInsert_of_some (h : labels.get k = some v) :
    (labels.orInsert key value).get k = some v := by
  rw [StringMap.orInsert]
  split_ifs with hkey
  · exact h
  · have hne : key ≠ k := by
      rintro rfl
      exact hkey (by rw [h]; rfl)
    rw [get_insert_of_ne hne, h]

end StringMap

namespace Kubernetes

section

variable {labels : StringMap} {stores : Stores} {toLowercase : String → String}

/-! ## The address of a target -/

theorem metaKey_injective : Function.Injective metaKey := by
  intro a b h
  have hlist := congrArg String.toList h
  simp only [metaKey, String.toList_append] at hlist
  exact String.toList_injective (List.append_cancel_left hlist)

/-- Names that begin otherwise than `address` are other keys, whatever follows. -/
theorem metaKey_append_ne_address {name : String} {c : Char} (hname : name.toList.head? = some c)
    (hc : c ≠ 'a') (s : String) : metaKey (name ++ s) ≠ metaKey "address" := by
  intro h
  have hhead := congrArg (fun s => s.toList.head?) (metaKey_injective h)
  rw [String.toList_append, List.head?_append, hname] at hhead
  exact hc (Option.some.inj hhead)

theorem get_insertSanitized {key value present : String} {entries : Option StringMap}
    (hvalue : ∀ s, metaKey (value ++ s) ≠ key) (hpresent : ∀ s, metaKey (present ++ s) ≠ key) :
    (insertSanitized labels entries value present).get key = labels.get key := by
  rw [insertSanitized]
  induction (entries.getD .empty).entries generalizing labels with
  | nil => rfl
  | cons entry rest ih =>
      rw [List.foldl_cons, ih, StringMap.get_insert_of_ne (hpresent _),
        StringMap.get_insert_of_ne (hvalue _)]

theorem get_address_addNodeLabels {nodes : Option (String → Option Node)}
    {nodeName : Option String} :
    (addNodeLabels labels nodes nodeName).get (metaKey "address") =
      labels.get (metaKey "address") := by
  have hne : ∀ {name : String}, name.toList.head? = some 'n' → ∀ s,
      metaKey (name ++ s) ≠ metaKey "address" :=
    fun hname => metaKey_append_ne_address hname (by decide)
  unfold addNodeLabels
  split
  · split_ifs
    · rfl
    · split
      · unfold addObjectMetaLabels addObjectAnnotationsAndLabels
        rw [get_insertSanitized (hne (by decide)) (hne (by decide)),
          get_insertSanitized (hne (by decide)) (hne (by decide)),
          StringMap.get_insert_of_ne (hne (by decide) _)]
      · rfl
  · rfl

theorem get_address_insertNode {endpoint : Endpoint} :
    (insertNode labels stores endpoint).get (metaKey "address") =
      labels.get (metaKey "address") := by
  unfold insertNode
  split
  · split_ifs <;> exact get_address_addNodeLabels
  · exact get_address_addNodeLabels

theorem get_address_insertEndpoint {addr : String} {endpoint : Endpoint} {port : EndpointPort} :
    (insertEndpoint labels stores addr endpoint port).get (metaKey "address") =
      some (endpointAddress addr port) := by
  have hne : ∀ {name : String}, name.toList.head? = some 'e' → ∀ s,
      metaKey (name ++ s) ≠ metaKey "address" :=
    fun hname => metaKey_append_ne_address hname (by decide)
  unfold insertEndpoint
  rw [get_address_insertNode, get_insertSanitized (hne (by decide)) (hne (by decide))]
  simp (disch := decide) only [StringMap.get_insertSome_of_ne, StringMap.get_insert_self]

theorem get_address_insertContainerPort {entry : (Container × Bool) × ContainerPort} :
    (insertContainerPort labels entry).get (metaKey "address") =
      labels.get (metaKey "address") := by
  unfold insertContainerPort
  simp (disch := decide) only [StringMap.get_insert_of_ne]

theorem get_address_insertPod {pod : Pod} {port : EndpointPort} {address : String}
    (h : labels.get (metaKey "address") = some address) :
    (insertPod toLowercase labels pod port).get (metaKey "address") = some address := by
  have hmerge : ∀ entries : List (String × String), ∀ labels : StringMap,
      labels.get (metaKey "address") = some address →
      (entries.foldl (fun labels entry => labels.orInsert entry.1 entry.2) labels).get
        (metaKey "address") = some address := by
    intro entries
    induction entries with
    | nil => exact fun _ h => h
    | cons entry rest ih => exact fun labels h => ih _ (StringMap.get_orInsert_of_some h)
  have hbase := hmerge (podLabels toLowercase pod).entries labels h
  unfold insertPod
  split
  · split
    · rw [get_address_insertContainerPort, hbase]
    · exact hbase
  · exact hbase

theorem singleTarget_of_address {address : String}
    (h : labels.get (metaKey "address") = some address) :
    singleTarget labels = ⟨[address], labels.remove (metaKey "address")⟩ := by
  rw [singleTarget, h, Option.getD_some]

/-! ## The loop over the triples -/

variable {slice : EndpointSlice} {triple : Endpoint × EndpointPort × String}
  {key : String × String} {pod : Pod}

/-- What a triple records: the number of its port, under the pod it refers to. -/
def recorded (stores : Stores) (triple : Endpoint × EndpointPort × String) :
    Option ((String × String) × List Int32) :=
  (resolvePod stores triple.1).map fun pod =>
    ((pod.metadata.ns.getD "", pod.metadata.name.getD ""), triple.2.1.port.toList)

theorem buildEndpointTarget_snd {seenPods : SeenPods} :
    (buildEndpointTarget toLowercase labels stores triple.2.2 triple.1 triple.2.1 seenPods).2 =
      Multimap.extendAll (recorded stores triple).toList seenPods := by
  unfold buildEndpointTarget recorded
  cases resolvePod stores triple.1 <;> rfl

/-- The labels do not depend on the pods seen before. -/
theorem buildEndpointTarget_fst {seenPods : SeenPods} :
    (buildEndpointTarget toLowercase labels stores triple.2.2 triple.1 triple.2.1 seenPods).1 =
      (buildEndpointTarget toLowercase labels stores triple.2.2 triple.1 triple.2.1 []).1 := by
  unfold buildEndpointTarget
  cases resolvePod stores triple.1 <;> rfl

theorem get_address_buildEndpointTarget {seenPods : SeenPods} :
    (buildEndpointTarget toLowercase labels stores triple.2.2 triple.1 triple.2.1 seenPods).1.get
      (metaKey "address") = some (endpointAddress triple.2.2 triple.2.1) := by
  unfold buildEndpointTarget
  split
  · exact get_address_insertEndpoint
  · exact get_address_insertPod get_address_insertEndpoint

/-- One step of the innermost loop. -/
theorem pushEndpointTarget_eq (state : List TargetGroup × SeenPods) :
    pushEndpointTarget toLowercase stores slice triple.1 triple.2.1 state triple.2.2 =
      (state.1 ++ [endpointGroup toLowercase stores slice triple],
        Multimap.extendAll (recorded stores triple).toList state.2) := by
  have haddress := @get_address_buildEndpointTarget (sliceLabels stores slice) stores toLowercase
    triple []
  rw [pushEndpointTarget, buildEndpointTarget_fst, buildEndpointTarget_snd,
    singleTarget_of_address haddress, endpointGroup]

/-- The run of the loop: a group for each triple, and what the triples record. -/
theorem foldl_pushEndpointTarget (triples : List (Endpoint × EndpointPort × String))
    (state : List TargetGroup × SeenPods) :
    triples.foldl (fun state triple =>
        pushEndpointTarget toLowercase stores slice triple.1 triple.2.1 state triple.2.2) state =
      (state.1 ++ triples.map (endpointGroup toLowercase stores slice),
        Multimap.extendAll (triples.filterMap (recorded stores)) state.2) := by
  induction triples generalizing state with
  | nil => simp [Multimap.extendAll]
  | cons triple rest ih =>
      rw [List.foldl_cons, pushEndpointTarget_eq, ih]
      refine Prod.ext ?_ ?_
      · simp
      · cases hrecorded : recorded stores triple <;> simp [Multimap.extendAll, hrecorded]

theorem pushEndpointTargets_eq (groups : List TargetGroup) :
    pushEndpointTargets toLowercase stores slice groups =
      (groups ++ slice.triples.map (endpointGroup toLowercase stores slice),
        Multimap.extendAll (slice.triples.filterMap (recorded stores)) []) := by
  refine Eq.trans ?_ (foldl_pushEndpointTarget slice.triples (groups, []))
  simp only [pushEndpointTargets, EndpointSlice.triples, List.foldl_flatMap, List.foldl_map]

/-! ## The pods seen -/

theorem resolvePod_eq {endpoint : Endpoint} :
    resolvePod stores endpoint = endpoint.podRef.bind stores.pods := by
  unfold resolvePod Endpoint.podRef
  rcases endpoint.targetRef with _ | ⟨kind, ns, name⟩
  · rfl
  · by_cases hkind : kind = some "Pod"
    · subst hkind
      cases ns <;> cases name <;> rfl
    · simp [Option.filter, hkind]

theorem mem_triples {endpoint : Endpoint} {port : EndpointPort} {addr : String} :
    (endpoint, port, addr) ∈ slice.triples ↔
      endpoint ∈ slice.endpoints.getD [] ∧ port ∈ slice.ports.getD [] ∧
        addr ∈ endpoint.addresses := by
  simp only [EndpointSlice.triples, List.mem_flatMap, List.mem_map, Prod.mk.injEq]
  constructor
  · rintro ⟨e, he, p, hp, a, ha, rfl, rfl, rfl⟩
    exact ⟨he, hp, ha⟩
  · rintro ⟨he, hp, ha⟩
    exact ⟨endpoint, he, port, hp, addr, ha, rfl, rfl, rfl⟩

/-- With pods under their own names, what is recorded is under the name in the reference. -/
theorem recorded_eq_some_iff (hkeyed : stores.PodsByName) {ports : List Int32} :
    recorded stores triple = some (key, ports) ↔
      triple.1.podRef = some key ∧ (stores.pods key).isSome ∧ triple.2.1.port.toList = ports := by
  have hname : ∀ ref pod, stores.pods ref = some pod →
      (pod.metadata.ns.getD "", pod.metadata.name.getD "") = ref := by
    intro ref pod hpod
    have hkey := hkeyed ref pod hpod
    unfold ObjectMeta.key? at hkey
    cases hns : pod.metadata.ns <;> cases hname : pod.metadata.name <;> simp_all
  rw [recorded, resolvePod_eq, Option.map_eq_some_iff]
  constructor
  · rintro ⟨pod, hpod, hentry⟩
    obtain ⟨ref, href, hfound⟩ := Option.bind_eq_some_iff.mp hpod
    rw [hname ref pod hfound] at hentry
    obtain ⟨rfl, hports⟩ := Prod.mk.inj hentry
    exact ⟨href, by rw [hfound]; rfl, hports⟩
  · rintro ⟨href, hfound, rfl⟩
    obtain ⟨pod, hpod⟩ := Option.isSome_iff_exists.mp hfound
    exact ⟨pod, by rw [href]; exact hpod, by rw [hname key pod hpod]⟩

/-- The pods seen are those in the store that the slice refers to. -/
theorem mem_keys_recorded (hkeyed : stores.PodsByName) :
    key ∈ (slice.triples.filterMap (recorded stores)).map Prod.fst ↔
      key ∈ slice.podRefs ∧ (stores.pods key).isSome := by
  simp only [EndpointSlice.podRefs, List.mem_toFinset, List.mem_map, List.mem_filterMap]
  constructor
  · rintro ⟨⟨k, ports⟩, ⟨triple, htriple, hrecorded⟩, rfl⟩
    obtain ⟨href, hfound, -⟩ := (recorded_eq_some_iff hkeyed).mp hrecorded
    exact ⟨⟨triple, htriple, href⟩, hfound⟩
  · rintro ⟨⟨triple, htriple, href⟩, hfound⟩
    exact ⟨(key, _), ⟨triple, htriple, (recorded_eq_some_iff hkeyed).mpr ⟨href, hfound, rfl⟩⟩, rfl⟩

/-- An endpoint goes through all ports of the slice, so under a pod that is seen are the numbers of
all of them. -/
theorem mem_values_recorded (hkeyed : stores.PodsByName)
    (hseen : key ∈ (slice.triples.filterMap (recorded stores)).map Prod.fst) {number : Int32} :
    number ∈ Multimap.values key
        (Multimap.extendAll (slice.triples.filterMap (recorded stores)) []) ↔
      number ∈ slice.portNumbers := by
  rw [Multimap.mem_values_extendAll, EndpointSlice.portNumbers]
  simp only [List.mem_filterMap]
  constructor
  · rintro ⟨⟨k, ports⟩, ⟨⟨endpoint, port, addr⟩, htriple, hrecorded⟩, rfl, hnumber⟩
    obtain ⟨-, -, rfl⟩ := (recorded_eq_some_iff hkeyed).mp hrecorded
    exact ⟨port, (mem_triples.mp htriple).2.1, Option.mem_toList.mp hnumber⟩
  · rintro ⟨port, hport, hnumber⟩
    obtain ⟨⟨k, ports⟩, hmem, rfl⟩ := List.mem_map.mp hseen
    obtain ⟨⟨endpoint, p, addr⟩, htriple, hrecorded⟩ := List.mem_filterMap.mp hmem
    obtain ⟨hendpoint, -, haddr⟩ := mem_triples.mp htriple
    obtain ⟨href, hfound, -⟩ := (recorded_eq_some_iff hkeyed).mp hrecorded
    refine ⟨(k, port.port.toList), ⟨(endpoint, port, addr), ?_, ?_⟩, rfl, ?_⟩
    · exact mem_triples.mpr ⟨hendpoint, hport, haddr⟩
    · exact (recorded_eq_some_iff hkeyed).mpr ⟨href, hfound, rfl⟩
    · exact Option.mem_toList.mpr hnumber

/-! ## The loop over the pods seen -/

theorem additionalTarget_eq {entry : (Container × Bool) × ContainerPort} :
    additionalTarget toLowercase stores slice pod entry =
      containerPortGroup toLowercase stores slice pod entry := by
  have haddress : ∀ base : StringMap, ∀ addr : String,
      (insertContainerPort (base.insert (metaKey "address") addr) entry).get (metaKey "address") =
        some addr := by
    intro base addr
    rw [get_address_insertContainerPort, StringMap.get_insert_self]
  rw [containerPortGroup, additionalTarget, singleTarget_of_address (haddress _ _)]

/-- What an entry adds whose numbers are those of the slice. -/
theorem additionalTargets_eq {ports : List Int32}
    (hports : ∀ number, number ∈ ports ↔ number ∈ slice.portNumbers) :
    (additionalTargets toLowercase stores slice (key, ports) : Multiset TargetGroup) =
      ((stores.pods key).map (uncoveredGroups toLowercase stores slice)).getD 0 := by
  unfold additionalTargets
  cases hpod : stores.pods key with
  | none => simp
  | some pod =>
      have hfilter : ((containerPorts pod).filter fun e => !ports.contains e.2.containerPort) =
          (containerPorts pod).filter fun e => e.2.containerPort ∉ slice.portNumbers :=
        List.filter_congr fun e _ => by simp [hports]
      have hmap : additionalTarget toLowercase stores slice pod =
          containerPortGroup toLowercase stores slice pod := funext fun _ => additionalTarget_eq
      simp only [Option.map_some, Option.getD_some, uncoveredGroups, String.isEmpty_iff]
      split_ifs with hip
      · rfl
      · rw [hfilter, hmap, Multiset.map_coe]

/-- The second loop adds the groups of each pod that is referenced, whatever its order. -/
theorem flatMap_additionalTargets (hkeyed : stores.PodsByName)
    (order : IterationOrder ((String × String) × List Int32)) :
    (((order.walk (Multimap.extendAll (slice.triples.filterMap (recorded stores)) [])).flatMap
        (additionalTargets toLowercase stores slice) : List TargetGroup) : Multiset TargetGroup) =
      ∑ key ∈ slice.podRefs,
        ((stores.pods key).map (uncoveredGroups toLowercase stores slice)).getD 0 := by
  set seen := Multimap.extendAll (slice.triples.filterMap (recorded stores)) [] with hseen
  set groupsOf := fun key : String × String =>
    ((stores.pods key).map (uncoveredGroups toLowercase stores slice)).getD 0 with hgroupsOf
  have hunique : Keyed.Unique Prod.fst seen := Multimap.unique_extendAll
  have hkeys : ∀ key, key ∈ seen.map Prod.fst ↔ key ∈ slice.podRefs ∧ (stores.pods key).isSome :=
    fun key => Multimap.mem_keys_extendAll.trans (mem_keys_recorded hkeyed)
  have hentry : ∀ entry ∈ seen,
      (additionalTargets toLowercase stores slice entry : Multiset TargetGroup) =
        groupsOf entry.1 := by
    rintro ⟨key, ports⟩ hmem
    refine additionalTargets_eq fun number => ?_
    rw [← Multimap.mem_values hunique hmem, hseen]
    exact mem_values_recorded hkeyed (Multimap.mem_keys_extendAll.mp (List.mem_map_of_mem hmem))
  calc (((order.walk seen).flatMap (additionalTargets toLowercase stores slice) :
          List TargetGroup) : Multiset TargetGroup)
      = (seen.flatMap (additionalTargets toLowercase stores slice) : List TargetGroup) :=
        Multiset.coe_eq_coe.mpr ((order.perm seen).flatMap_right _)
    _ = (seen.map fun entry =>
          (additionalTargets toLowercase stores slice entry : Multiset TargetGroup)).sum := by
        rw [← Multiset.coe_bind, Multiset.bind, Multiset.join, Multiset.map_coe, Multiset.sum_coe]
    _ = ((seen.map Prod.fst).map groupsOf).sum := by
        rw [List.map_map]
        exact congrArg List.sum (List.map_congr_left hentry)
    _ = ∑ key ∈ (seen.map Prod.fst).toFinset, groupsOf key :=
        (List.sum_toFinset groupsOf hunique).symm
    _ = ∑ key ∈ slice.podRefs, groupsOf key := by
        refine Finset.sum_subset (fun key hkey => ?_) fun key href hnot => ?_
        · exact ((hkeys key).mp (List.mem_toFinset.mp hkey)).1
        · -- The reference is to a pod that is not in the store.
          rw [List.mem_toFinset, hkeys] at hnot
          cases hpod : stores.pods key with
          | none => simp [hgroupsOf, hpod]
          | some pod => exact absurd ⟨href, by rw [hpod]; rfl⟩ hnot

/-! ## All slices -/

/-- One step of the outer loop. -/
theorem pushSliceTargets_eq (hkeyed : stores.PodsByName) (groups : List TargetGroup)
    (order : IterationOrder ((String × String) × List Int32)) :
    (pushSliceTargets toLowercase stores groups (slice, order) : Multiset TargetGroup) =
      groups + sliceGroups toLowercase stores slice := by
  rw [pushSliceTargets, pushEndpointTargets_eq, List.foldl_append_eq_append, ← List.flatMap_def,
    ← Multiset.coe_add, flatMap_additionalTargets hkeyed, ← Multiset.coe_add, sliceGroups,
    Multiset.map_coe, add_assoc]

/-- The run of the outer loop. -/
theorem foldl_pushSliceTargets (hkeyed : stores.PodsByName) (groups : List TargetGroup)
    (slices : List (EndpointSlice × IterationOrder ((String × String) × List Int32))) :
    ((slices.foldl (pushSliceTargets toLowercase stores) groups : List TargetGroup) :
        Multiset TargetGroup) =
      groups + ((slices.map Prod.fst).map (sliceGroups toLowercase stores)).sum := by
  induction slices generalizing groups with
  | nil => simp
  | cons slice rest ih =>
      rw [List.foldl_cons, ih, pushSliceTargets_eq hkeyed, List.map_cons, List.map_cons,
        List.sum_cons, add_assoc]

end

/-- **The groups are those that the slices ask for, whatever the order in which `seen_pods` is
walked**: one for each endpoint, port and address, and one for each container port of a referenced
pod that no slice port covers. -/
theorem endpointsliceTargetGroups_eq (toLowercase : String → String)
    (orders : Nat → IterationOrder ((String × String) × List Int32)) (slices : List EndpointSlice)
    {stores : Stores} (hkeyed : stores.PodsByName) :
    (endpointsliceTargetGroups toLowercase orders slices stores : Multiset TargetGroup) =
      (slices.map (sliceGroups toLowercase stores)).sum := by
  have hslices : (slices.zipIdx.map fun slice => (slice.1, orders slice.2)).map Prod.fst =
      slices := by
    rw [List.map_map]
    exact List.zipIdx_map_fst 0 slices
  rw [endpointsliceTargetGroups, foldl_pushSliceTargets hkeyed, hslices, Multiset.coe_nil, zero_add]

/-- The maps that `build` collects have the pods under their names. -/
theorem collect_podsByName (services : List Service) (pods : List Pod)
    (nodes : Option (List Node)) : (Stores.collect services pods nodes).PodsByName := by
  intro key pod hpod
  have hmem := List.mem_of_getLast? hpod
  exact of_decide_eq_true (List.mem_filter.mp hmem).2

/-- A pod with two container ports and one of an init container, behind a slice with one port. -/
def webPod : Pod where
  metadata := { ns := some "default", name := some "web-0" }
  spec := some {
    containers := [
      { name := "app", ports := some [{ containerPort := 8080 }, { containerPort := 9090 }] }]
    initContainers := some [{ name := "init", ports := some [{ containerPort := 7000 }] }] }
  status := some { podIp := some "10.0.0.5" }

def webSlice : EndpointSlice where
  metadata := { ns := some "default", name := some "web-abcde" }
  addressType := "IPv4"
  endpoints := some [
    { addresses := ["10.0.0.5"]
      targetRef := some { kind := some "Pod", ns := some "default", name := some "web-0" } },
    { addresses := ["10.0.0.6"] }]
  ports := some [{ port := some 8080 }]

theorem endpointsliceTargetGroups_eq_web :
    Multiset.map (·.targets)
        (endpointsliceTargetGroups id (fun _ => ⟨List.reverse, List.reverse_perm⟩) [webSlice]
          (Stores.collect [] [webPod] none) : Multiset TargetGroup) =
      [["10.0.0.5:8080"], ["10.0.0.5:9090"], ["10.0.0.5:7000"], ["10.0.0.6:8080"]] := by
  rw [endpointsliceTargetGroups_eq id _ [webSlice] (collect_podsByName [] [webPod] none)]
  decide

end Kubernetes

end PromScrape
