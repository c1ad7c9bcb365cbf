import PromScrape.Implementation.KubernetesRun

set_option autoImplicit false

/-! # Kubernetes discovery misses no change

`step_cases` says once what an event can do. What the discovery task read of a store stays up to date
in the sense of `Signalled.Sources.UpToDate` whatever the watch tasks do; a signal is taken only on the
way to reading all stores again. -/

namespace PromScrape.Kubernetes

open Multimap (IterationOrder)
open Signalled (Sources)

variable {toLowercase : String → String} {task : SdTask} {s s' : Run}

/-! ## What a build reads -/

/-- A build depends on the stores that it reads and on no others. -/
theorem SdTask.build_congr {orders : Nat → IterationOrder ((String × String) × List Int32)}
    {contents others : Contents} (h : ∀ key ∈ task.readOrder, contents key = others key) :
    task.build toLowercase orders contents = task.build toLowercase orders others := by
  have hnodes : task.config.attachMetadata.node = true → contents .node = others .node := by
    intro hattach
    refine h _ ?_
    simp [SdTask.readOrder, SdTask.nodeKeys, hattach]
  have hpods : (task.indices.flatMap fun ns => contents (.pod ns)) =
      task.indices.flatMap fun ns => others (.pod ns) := by
    refine List.flatMap_congr fun ns hns => h (.pod ns) ?_
    simp [SdTask.readOrder, SdTask.podKeys, hns]
  have hslices : task.config.role = .endpointslice →
      (task.indices.flatMap fun ns => contents (.slice ns)) =
        task.indices.flatMap fun ns => others (.slice ns) := by
    intro hrole
    refine List.flatMap_congr fun ns hns => h (.slice ns) ?_
    simp [SdTask.readOrder, SdTask.sliceKeys, hrole, hns]
  have hservices : task.config.role = .endpointslice →
      (task.indices.flatMap fun ns => contents (.service ns)) =
        task.indices.flatMap fun ns => others (.service ns) := by
    intro hrole
    refine List.flatMap_congr fun ns hns => h (.service ns) ?_
    simp [SdTask.readOrder, SdTask.serviceKeys, hrole, hns]
  have hattached : (if task.config.attachMetadata.node then some (contents .node) else none) =
      if task.config.attachMetadata.node then some (others .node) else none := by
    split
    · next hattach => rw [hnodes hattach]
    · rfl
  unfold SdTask.build
  rw [hpods, hattached]
  cases hrole : task.config.role with
  | endpointslice => simp only [hslices hrole, hservices hrole]
  | pod | endpoints | service | node | ingress => rfl

namespace Run

/-! ## What an event can do -/

/-- The moves of the watch tasks and of the discovery task. -/
inductive Move (toLowercase : String → String) (task : SdTask) (s : Run) : Run → Prop where
  | stored (key : StoreKey) (contents : List key.Object) {ready : StoreKey → Bool}
      (hready : ∀ k, s.ready k = true → ready k = true) :
      Move toLowercase task s
        { s with stores := s.stores.change key contents, ready := ready }
  | notified (key : StoreKey) :
      Move toLowercase task s { s with stores := s.stores.signal notifyCapacity key }
  | watchEnded (key : StoreKey) :
      Move toLowercase task s { s with watching := Function.update s.watching key false }
  | synced {key : StoreKey} {rest : List StoreKey} (hphase : s.phase = .syncing (key :: rest))
      (hkey : s.ready key = true ∨ s.watching key = false) :
      Move toLowercase task s { s with phase := .syncing rest }
  | began (hphase : s.phase = .syncing [] ∨ s.phase = .absorbing) :
      Move toLowercase task s { s with phase := .reading task.readOrder fun _ => [] }
  | read {key : StoreKey} {rest : List StoreKey} {contents : Contents}
      (hphase : s.phase = .reading (key :: rest) contents) :
      Move toLowercase task s
        { s with phase := .reading rest (Function.update contents key (s.stores.value key)) }
  | built (orders : Nat → IterationOrder ((String × String) × List Int32)) {contents : Contents}
      (hphase : s.phase = .reading [] contents) :
      Move toLowercase task s
        { s with phase := .sending (task.build toLowercase orders contents) }
  | sent {groups : List TargetGroup} (hphase : s.phase = .sending groups) :
      Move toLowercase task s
        { s with phase := .waiting, sent := s.sent ++ [(task.slot, groups)] }
  | stopped (hphase : s.phase = .waiting ∨ ∃ groups, s.phase = .sending groups) :
      Move toLowercase task s { s with phase := .stopped }
  | received (hphase : s.phase = .waiting) :
      Move toLowercase task s { s with stores := s.stores.receive, phase := .absorbing }
  | absorbed (hphase : s.phase = .absorbing) :
      Move toLowercase task s { s with stores := s.stores.receive }

theorem stored_cases (s : Run) (key : StoreKey) (contents : List key.Object) (synced : Bool) :
    s.stored key contents synced = s ∨ Move toLowercase task s (s.stored key contents synced) := by
  unfold stored
  split
  · refine .inr (.stored key contents fun k hk => ?_)
    split
    · by_cases hkey : k = key
      · subst hkey
        exact Function.update_self ..
      · rw [Function.update_of_ne hkey, hk]
    · exact hk
  · exact .inl rfl

theorem watchEnds_cases (s : Run) (key : StoreKey) :
    s.watchEnds key = s ∨ Move toLowercase task s (s.watchEnds key) := by
  unfold watchEnds
  split
  · exact .inl rfl
  · exact .inr (.watchEnded key)

theorem sync_cases (s : Run) : s.sync task = s ∨ Move toLowercase task s (s.sync task) := by
  unfold sync
  cases hphase : s.phase with
  | syncing rest =>
      cases rest with
      | nil => exact .inr (.began (.inl hphase))
      | cons key rest =>
          simp only []
          split
          · next hkey => exact .inr (.synced hphase (by simpa using hkey))
          · exact .inl rfl
  | reading | sending | waiting | absorbing | stopped => exact .inl rfl

theorem read_cases (s : Run) : s.read = s ∨ Move toLowercase task s s.read := by
  unfold read
  cases hphase : s.phase with
  | reading rest contents =>
      cases rest with
      | nil => exact .inl rfl
      | cons key rest => exact .inr (.read hphase)
  | syncing | sending | waiting | absorbing | stopped => exact .inl rfl

theorem build_cases (s : Run) (orders : Nat → IterationOrder ((String × String) × List Int32)) :
    s.build toLowercase task orders = s ∨
      Move toLowercase task s (s.build toLowercase task orders) := by
  unfold build
  cases hphase : s.phase with
  | reading rest contents =>
      cases rest with
      | nil => exact .inr (.built orders hphase)
      | cons key rest => exact .inl rfl
  | syncing | sending | waiting | absorbing | stopped => exact .inl rfl

theorem send_cases (s : Run) : s.send task = s ∨ Move toLowercase task s (s.send task) := by
  unfold send
  cases hphase : s.phase with
  | sending groups => exact .inr (.sent hphase)
  | syncing | reading | waiting | absorbing | stopped => exact .inl rfl

theorem mergerGone_cases (s : Run) : s.mergerGone = s ∨ Move toLowercase task s s.mergerGone := by
  unfold mergerGone
  cases hphase : s.phase with
  | sending groups => exact .inr (.stopped (.inr ⟨groups, hphase⟩))
  | syncing | reading | waiting | absorbing | stopped => exact .inl rfl

theorem recv_cases (s : Run) : s.recv task = s ∨ Move toLowercase task s (s.recv task) := by
  unfold recv
  cases hphase : s.phase with
  | waiting =>
      simp only []
      split_ifs
      · exact .inr (.received hphase)
      · exact .inr (.stopped (.inl hphase))
      · exact .inl rfl
  | syncing | reading | sending | absorbing | stopped => exact .inl rfl

theorem absorb_cases (s : Run) : s.absorb task = s ∨ Move toLowercase task s (s.absorb task) := by
  unfold absorb
  cases hphase : s.phase with
  | absorbing =>
      simp only []
      split_ifs
      · exact .inr (hphase ▸ .absorbed hphase)
      · exact .inr (.began (.inr hphase))
      · exact .inl rfl
  | syncing | reading | sending | waiting | stopped => exact .inl rfl

theorem quiet_cases (s : Run) : s.quiet task = s ∨ Move toLowercase task s (s.quiet task) := by
  unfold quiet
  cases hphase : s.phase with
  | absorbing => exact .inr (.began (.inr hphase))
  | syncing | reading | sending | waiting | stopped => exact .inl rfl

/-- **Every event does nothing or is one of the moves.** -/
theorem step_cases (s : Run) (event : RunEvent) :
    step toLowercase task s event = s ∨ Move toLowercase task s (step toLowercase task s event) := by
  cases event with
  | stored key contents synced => exact stored_cases s key contents synced
  | notify key => exact .inr (.notified key)
  | watchEnds key => exact watchEnds_cases s key
  | sync => exact sync_cases s
  | read => exact read_cases s
  | build orders => exact build_cases s orders
  | send => exact send_cases s
  | mergerGone => exact mergerGone_cases s
  | recv => exact recv_cases s
  | absorb => exact absorb_cases s
  | quiet => exact quiet_cases s

/-! ## What the discovery task knows -/

/-- Each of these stores has had its initial list, or its watch task is gone. -/
def Filled (s : Run) (keys : List StoreKey) : Prop :=
  ∀ key ∈ keys, s.ready key = true ∨ s.watching key = false

/-- What was read of these stores is up to date. -/
def UpToDate (s : Run) (keys : List StoreKey) (contents : Contents) : Prop :=
  ∀ key ∈ keys, s.stores.UpToDate key (contents key)

/-- Groups built from contents that are up to date. -/
def Fresh (toLowercase : String → String) (task : SdTask) (s : Run) (groups : List TargetGroup) :
    Prop :=
  ∃ orders contents, groups = task.build toLowercase orders contents ∧
    s.UpToDate task.readOrder contents

/-- What holds where the discovery task is. -/
def PhaseInv (toLowercase : String → String) (task : SdTask) (s : Run) : RunPhase → Prop
  | .syncing rest => s.sent = [] ∧ ∃ done, task.syncOrder = done ++ rest ∧ s.Filled done
  | .reading rest contents =>
      s.Filled task.syncOrder ∧ ∃ done, task.readOrder = done ++ rest ∧ s.UpToDate done contents
  | .sending groups => s.Filled task.syncOrder ∧ s.Fresh toLowercase task groups
  | .waiting => s.Filled task.syncOrder ∧
      ∃ groups, s.sent.getLast? = some (task.slot, groups) ∧ s.Fresh toLowercase task groups
  | .absorbing => s.Filled task.syncOrder
  | .stopped => s.sent = [] ∨ s.Filled task.syncOrder

abbrev Inv (toLowercase : String → String) (task : SdTask) (s : Run) : Prop :=
  PhaseInv toLowercase task s s.phase

theorem Filled.append {done : List StoreKey} {key : StoreKey} (h : s.Filled done)
    (hkey : s.ready key = true ∨ s.watching key = false) : s.Filled (done ++ [key]) := by
  intro k hk
  rcases List.mem_append.mp hk with hdone | hnew
  · exact h k hdone
  · rw [List.mem_singleton.mp hnew]
    exact hkey

/-- Reading a store again gives what it holds. -/
theorem UpToDate.read {done : List StoreKey} {contents : Contents} (h : s.UpToDate done contents)
    (key : StoreKey) :
    s.UpToDate (done ++ [key]) (Function.update contents key (s.stores.value key)) := by
  intro k hk
  by_cases hkey : k = key
  · subst hkey
    rw [Function.update_self]
    exact s.stores.upToDate_value k
  · rw [Function.update_of_ne hkey]
    rcases List.mem_append.mp hk with hdone | hnew
    · exact h k hdone
    · exact absurd (List.mem_singleton.mp hnew) hkey

/-- The watch tasks leave the discovery task where it is, and what it knows stays true. -/
theorem Inv.of_watch (h : Inv toLowercase task s) {stores : Sources StoreKey fun key => List key.Object}
    {ready watching : StoreKey → Bool}
    (hstores : ∀ key (read : List key.Object), s.stores.UpToDate key read → stores.UpToDate key read)
    (hready : ∀ key, s.ready key = true → ready key = true)
    (hwatching : ∀ key, s.watching key = false → watching key = false) :
    Inv toLowercase task { s with stores := stores, ready := ready, watching := watching } := by
  have hfilled : ∀ keys, s.Filled keys →
      Filled { s with stores := stores, ready := ready, watching := watching } keys :=
    fun keys hkeys key hkey => (hkeys key hkey).imp (hready key) (hwatching key)
  have hupToDate : ∀ keys contents, s.UpToDate keys contents →
      UpToDate { s with stores := stores, ready := ready, watching := watching } keys contents :=
    fun keys contents hkeys key hkey => hstores key _ (hkeys key hkey)
  have hfresh : ∀ groups, s.Fresh toLowercase task groups →
      Fresh toLowercase task { s with stores := stores, ready := ready, watching := watching }
        groups := by
    rintro groups ⟨orders, contents, hbuild, hkeys⟩
    exact ⟨orders, contents, hbuild, hupToDate _ _ hkeys⟩
  unfold Inv PhaseInv at h ⊢
  cases hphase : s.phase with
  | syncing rest =>
      rw [hphase] at h
      obtain ⟨hsent, done, hdone, hkeys⟩ := h
      exact ⟨hsent, done, hdone, hfilled _ hkeys⟩
  | reading rest contents =>
      rw [hphase] at h
      obtain ⟨hsynced, done, hdone, hkeys⟩ := h
      exact ⟨hfilled _ hsynced, done, hdone, hupToDate _ _ hkeys⟩
  | sending groups =>
      rw [hphase] at h
      exact ⟨hfilled _ h.1, hfresh _ h.2⟩
  | waiting =>
      rw [hphase] at h
      obtain ⟨hsynced, groups, hlast, hgroups⟩ := h
      exact ⟨hfilled _ hsynced, groups, hlast, hfresh _ hgroups⟩
  | absorbing =>
      rw [hphase] at h
      exact hfilled _ h
  | stopped =>
      rw [hphase] at h
      exact h.imp id (hfilled _)

theorem Inv.step (h : Inv toLowercase task s) (hmove : Move toLowercase task s s') :
    Inv toLowercase task s' := by
  cases hmove with
  | stored key contents hready =>
      exact h.of_watch (fun _ _ hread => hread.change key contents) hready fun _ hended => hended
  | notified key =>
      exact h.of_watch (fun _ _ hread => hread.signal (by decide) key) (fun _ hfull => hfull)
        fun _ hended => hended
  | watchEnded key =>
      refine h.of_watch (fun _ _ hread => hread) (fun _ hfull => hfull) fun k hended => ?_
      by_cases hkey : k = key
      · subst hkey
        exact Function.update_self ..
      · rw [Function.update_of_ne hkey, hended]
  | @synced key rest hphase hkey =>
      rw [Inv, hphase] at h
      obtain ⟨hsent, done, hdone, hfilled⟩ := h
      refine ⟨hsent, done ++ [key], ?_, hfilled.append hkey⟩
      rw [hdone, List.append_assoc, List.singleton_append]
  | began hphase =>
      refine ⟨?_, [], rfl, fun key hkey => absurd hkey List.not_mem_nil⟩
      rcases hphase with hphase | hphase <;> rw [Inv, hphase] at h
      · obtain ⟨-, done, hdone, hfilled⟩ := h
        rw [hdone, List.append_nil]
        exact hfilled
      · exact h
  | @read key rest contents hphase =>
      rw [Inv, hphase] at h
      obtain ⟨hsynced, done, hdone, hread⟩ := h
      refine ⟨hsynced, done ++ [key], ?_, hread.read key⟩
      rw [hdone, List.append_assoc, List.singleton_append]
  | @built orders contents hphase =>
      rw [Inv, hphase] at h
      obtain ⟨hsynced, done, hdone, hread⟩ := h
      rw [List.append_nil] at hdone
      exact ⟨hsynced, orders, contents, rfl, hdone ▸ hread⟩
  | @sent groups hphase =>
      rw [Inv, hphase] at h
      exact ⟨h.1, groups, List.getLast?_concat, h.2⟩
  | stopped hphase =>
      rcases hphase with hphase | ⟨groups, hphase⟩ <;> rw [Inv, hphase] at h
      · exact .inr h.1
      · exact .inr h.1
  | received hphase =>
      rw [Inv, hphase] at h
      exact h.1
  | absorbed hphase =>
      rw [Inv, hphase] at h
      show PhaseInv _ _ _ s.phase
      rw [hphase]
      exact h

/-- A task that never got a client or namespaces sends nothing. -/
theorem inv_init (task : SdTask) : Inv toLowercase task (init task) := by
  unfold init
  split
  · exact ⟨rfl, [], rfl, fun key hkey => absurd hkey List.not_mem_nil⟩
  · exact .inl rfl

theorem inv_step (s : Run) (event : RunEvent) (h : Inv toLowercase task s) :
    Inv toLowercase task (step toLowercase task s event) := by
  rcases step_cases s event with hsame | hmove
  · rw [hsame]
    exact h
  · exact h.step hmove

/-- Nothing is sent before every store was filled once. -/
theorem Inv.filled_of_sent (h : Inv toLowercase task s) (hsent : s.sent ≠ []) :
    s.Filled task.syncOrder := by
  rw [Inv] at h
  cases hphase : s.phase <;> rw [hphase] at h
  case syncing => exact absurd h.1 hsent
  case stopped => exact h.resolve_left hsent
  case absorbing => exact h
  all_goals exact h.1

/-- **Where nothing is left to be noticed, the last update is built from what the stores hold.** -/
theorem Inv.last_of_quiet (h : Inv toLowercase task s) (hphase : s.phase = .waiting)
    (hquiet : s.stores.Quiet task.readOrder) :
    ∃ orders, s.sent.getLast? =
      some (task.slot, task.build toLowercase orders s.stores.value) := by
  rw [Inv, hphase] at h
  obtain ⟨-, groups, hlast, orders, contents, rfl, hread⟩ := h
  refine ⟨orders, ?_⟩
  rw [hlast, SdTask.build_congr fun key hkey => (hread key hkey).eq_of_quiet hquiet hkey]

end Run

end PromScrape.Kubernetes
