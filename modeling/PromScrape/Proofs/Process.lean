import PromScrape.Spec.Process
import PromScrape.Proofs.Lifecycle

set_option autoImplicit false

/-! # Every answer of the HTTP endpoint has its reason

`step_cases` says once what an event can do. A connection only ever waits for what it asked for, and
the channel keeps accounts of the commands; so an answer can be traced back to the state in which the
request was routed, or to what the main loop did with the command. -/

namespace PromScrape

variable {deps : LifecycleDeps} {settings : ProcessSettings deps}

/-! ## Routes -/

theorem isPost_iff {method : String} : isPost method = true ↔ method = "POST" ∨ method = "PUT" := by
  simp [isPost]

/-- The route of a command, while the lifecycle API is enabled. -/
theorem route_ask {state : WebState} {method path : String} {command : LifecycleCommand}
    {success : String} (h : route state method path = .ask command success) :
    state.lifecycle = true ∧ (method = "POST" ∨ method = "PUT") ∧ path = command.path ∧
      success = command.success := by
  have hlifecycle : ∀ c text, lifecycleRequest state.lifecycle c text = .ask command success →
      state.lifecycle = true ∧ c = command ∧ text = success := by
    intro c text hroute
    unfold lifecycleRequest at hroute
    split at hroute
    · next henabled =>
        injection hroute with hcommand hsuccess
        exact ⟨henabled, hcommand, hsuccess⟩
    · cases hroute
  unfold route at h
  split_ifs at h with _ _ _ _ hreload hquit
  · obtain ⟨henabled, rfl, rfl⟩ := hlifecycle _ _ h
    simp only [Bool.and_eq_true, beq_iff_eq, isPost_iff] at hreload
    exact ⟨henabled, hreload.1, hreload.2, rfl⟩
  · obtain ⟨henabled, rfl, rfl⟩ := hlifecycle _ _ h
    simp only [Bool.and_eq_true, beq_iff_eq, isPost_iff] at hquit
    exact ⟨henabled, hquit.1, hquit.2, rfl⟩

namespace WebConnection

/-- What a read does to a connection: it reads on, or, if that ends the request, it is routed. -/
theorem receive_cases (c : WebConnection) (state : WebState) (chunk : List UInt8) :
    (c.receive state chunk).phase = c.phase ∨
      (c.read.read chunk).finished = true ∧
        (c.receive state chunk).target = parseRequest (c.read.read chunk).request ∧
        (c.receive state chunk).phase = .ofRouted (route state (c.receive state chunk).target.1
          (c.receive state chunk).target.2) := by
  by_cases hfinished : (c.read.read chunk).finished = true
  · right
    simp only [receive, hfinished, if_true, target, true_and]
  · left
    simp only [receive, hfinished]
    rfl

end WebConnection

/-! ## What an event can do -/

namespace Process

/-- The moves of connections and of the main loop. -/
inductive Move (settings : ProcessSettings deps) (s : Process deps) :
    ProcessEvent → Process deps → Prop where
  | stays {e : ProcessEvent} (hidle : s.agentEvent e = none)
      (hlaunched : s.main = .launching → launchWorld [e] = none) : Move settings s e s
  | accepted : Move settings s .accept { s with connections := s.connections ++ [{}] }
  | read {id : Nat} {c : WebConnection} (hc : s.connections[id]? = some c)
      (hphase : c.phase = .reading) (chunk : List UInt8) (metrics : Metrics)
      (process : Option ProcessStats) :
      Move settings s (.read id chunk metrics process)
        { s with
          connections := s.connections.modify id fun c =>
            c.receive ⟨s.ready, metrics, process, settings.lifecycle⟩ chunk }
  | refused {id : Nat} {c : WebConnection} {command : LifecycleCommand} {success : String}
      (hc : s.connections[id]? = some c) (hphase : c.phase = .sending command success)
      (hclosed : s.mailbox.closed = true) :
      Move settings s (.send id)
        (s.setPhase id (.answered "500 Internal Server Error" "lifecycle handler is gone\n"))
  | sent {id : Nat} {c : WebConnection} {command : LifecycleCommand} {success : String}
      (hc : s.connections[id]? = some c) (hphase : c.phase = .sending command success)
      (hopen : s.mailbox.closed = false) (hroom : s.mailbox.isFull = false) :
      Move settings s (.send id)
        ({ s with mailbox := s.mailbox.send id command }.setPhase id (.waiting command success))
  | replied {id : Nat} {c : WebConnection} {command : LifecycleCommand} {success : String}
      {reply : Except String Unit} (hc : s.connections[id]? = some c)
      (hphase : c.phase = .waiting command success)
      (hreply : s.mailbox.reception id = .replied reply) :
      Move settings s (.resume id)
        (s.setPhase id (.answered (lifecycleResponse success reply).1
          (lifecycleResponse success reply).2))
  | discarded {id : Nat} {c : WebConnection} {command : LifecycleCommand} {success : String}
      (hc : s.connections[id]? = some c) (hphase : c.phase = .waiting command success)
      (hdropped : s.mailbox.reception id = .dropped) :
      Move settings s (.resume id)
        (s.setPhase id
          (.answered "500 Internal Server Error" "lifecycle handler dropped the request\n"))
  | gone (id : Nat) : Move settings s (.drop id) (s.setPhase id .gone)
  | launched (world : World) (hmain : s.main = .launching) :
      Move settings s (.advance world) (s.enter (launch deps settings.path world))
  | readied (world : World) {pipeline : Pipeline deps} (hmain : s.main = .started pipeline) :
      Move settings s (.advance world) { s with main := .waiting pipeline, ready := true }
  | left (world : World) {pipeline : Pipeline deps} (hmain : s.main = .leaving pipeline .shutdown) :
      Move settings s (.advance world)
        { s with main := .stopping pipeline .shutdown, ready := false }
  | leftToReload (world : World) {pipeline : Pipeline deps} {config : Config deps.relabel.engine}
      (hmain : s.main = .leaving pipeline (.reload config)) :
      Move settings s (.advance world) { s with main := .stopping pipeline (.reload config) }
  | finished (world : World) {pipeline : Pipeline deps}
      (hmain : s.main = .stopping pipeline .shutdown) :
      Move settings s (.advance world) (s.enter (.exited (.ok ())))
  | restarted (world : World) {pipeline : Pipeline deps} {config : Config deps.relabel.engine}
      (hmain : s.main = .stopping pipeline (.reload config)) :
      Move settings s (.advance world)
        (s.enter (bringUp deps world config (pipeline.generation + 1)))
  | hungUp {world : World} {pipeline : Pipeline deps} {config : Config deps.relabel.engine}
      (hmain : s.main = .waiting pipeline) (hload : loadConfig deps settings.path world = .ok config) :
      Move settings s (.hangup world) { s with main := .leaving pipeline (.reload config) }
  | hungUpFailed {world : World} {pipeline : Pipeline deps} {err : String}
      (hmain : s.main = .waiting pipeline) (hload : loadConfig deps settings.path world = .error err) :
      Move settings s (.hangup world) s
  | interrupted {pipeline : Pipeline deps} (hmain : s.main = .waiting pipeline) :
      Move settings s .interrupt { s with main := .leaving pipeline .shutdown }
  | quit (world : World) {pipeline : Pipeline deps} {id : Nat}
      {rest : List (Nat × LifecycleCommand)} (hmain : s.main = .waiting pipeline)
      (hqueue : s.mailbox.queue = (id, .quit) :: rest) :
      Move settings s (.receive world)
        { s with main := .leaving pipeline .shutdown, mailbox := s.mailbox.answer (.ok ()) }
  | reloaded {world : World} {pipeline : Pipeline deps} {id : Nat}
      {rest : List (Nat × LifecycleCommand)} {config : Config deps.relabel.engine}
      (hmain : s.main = .waiting pipeline) (hqueue : s.mailbox.queue = (id, .reload) :: rest)
      (hload : loadConfig deps settings.path world = .ok config) :
      Move settings s (.receive world)
        { s with
          main := .leaving pipeline (.reload config)
          mailbox := s.mailbox.answer (.ok ()) }
  | reloadFailed {world : World} {pipeline : Pipeline deps} {id : Nat}
      {rest : List (Nat × LifecycleCommand)} {err : String} (hmain : s.main = .waiting pipeline)
      (hqueue : s.mailbox.queue = (id, .reload) :: rest)
      (hload : loadConfig deps settings.path world = .error err) :
      Move settings s (.receive world) { s with mailbox := s.mailbox.answer (.error err) }

theorem send_cases (s : Process deps) (id : Nat) : Move settings s (.send id) (s.send id) := by
  unfold send
  split
  · next hc =>
      split
      · next hclosed => exact .refused hc rfl hclosed
      · next hopen =>
          split
          · exact .stays rfl fun _ => rfl
          · next hroom =>
              exact .sent hc rfl (Bool.eq_false_iff.mpr hopen) (Bool.eq_false_iff.mpr hroom)
  · exact .stays rfl fun _ => rfl

theorem resume_cases (s : Process deps) (id : Nat) :
    Move settings s (.resume id) (s.resume id) := by
  unfold resume
  split
  · next hc =>
      split
      · next hreply => exact .replied hc rfl hreply
      · next hdropped => exact .discarded hc rfl hdropped
      · exact .stays rfl fun _ => rfl
  · exact .stays rfl fun _ => rfl

theorem advance_cases (s : Process deps) (world : World) :
    Move settings s (.advance world) (s.advance settings world) := by
  unfold advance
  split
  · next hmain => exact .launched world hmain
  · next hmain => exact .readied world hmain
  · next hmain => exact .stays (by simp [agentEvent, hmain]) (by simp [hmain])
  · next hmain => exact .left world hmain
  · next hmain => exact .leftToReload world hmain
  · next hmain => exact .finished world hmain
  · next hmain => exact .restarted world hmain
  · next hmain => exact .stays (by simp [agentEvent, hmain]) (by simp [hmain])

theorem hangup_cases (s : Process deps) (world : World) :
    Move settings s (.hangup world) (s.hangup settings world) := by
  unfold hangup
  split
  · next hmain =>
      split
      · next hload => exact .hungUp hmain hload
      · next hload => exact .hungUpFailed hmain hload
  · next hmain =>
      refine .stays ?_ fun _ => rfl
      dsimp only [agentEvent]
      split
      · next hwaiting => exact (hmain _ hwaiting).elim
      · rfl

theorem interrupt_cases (s : Process deps) : Move settings s .interrupt s.interrupt := by
  unfold interrupt
  split
  · next hmain => exact .interrupted hmain
  · next hmain =>
      refine .stays ?_ fun _ => rfl
      dsimp only [agentEvent]
      split
      · next hwaiting => exact (hmain _ hwaiting).elim
      · rfl

theorem receive_cases (s : Process deps) (world : World) :
    Move settings s (.receive world) (s.receive settings world) := by
  unfold receive
  split
  · next hmain hqueue => exact .quit world hmain hqueue
  · next hmain hqueue =>
      split
      · next hload => exact .reloaded hmain hqueue hload
      · next hload => exact .reloadFailed hmain hqueue hload
  · next hquit hreload =>
      refine .stays ?_ fun _ => rfl
      dsimp only [agentEvent]
      split
      · next hmain hqueue => exact (hquit _ _ _ hmain hqueue).elim
      · next hmain hqueue => exact (hreload _ _ _ hmain hqueue).elim
      · rfl

/-- **Every event is one of the moves.** -/
theorem step_cases (s : Process deps) (e : ProcessEvent) :
    Move settings s e (s.step settings e) := by
  cases e with
  | accept => exact .accepted
  | read id chunk metrics process =>
      rw [step, Process.read]
      split
      · next hc => exact .read hc rfl chunk metrics process
      · exact .stays rfl fun _ => rfl
  | send id => exact s.send_cases id
  | resume id => exact s.resume_cases id
  | drop id => exact .gone id
  | advance world => exact s.advance_cases world
  | hangup world => exact s.hangup_cases world
  | interrupt => exact s.interrupt_cases
  | receive world => exact s.receive_cases world

/-! ## Connections and the channel -/

/-- What a connection that waits has done so far. -/
def ConnectionOk (settings : ProcessSettings deps) (sent : List (Nat × LifecycleCommand)) (id : Nat)
    (c : WebConnection) : Prop :=
  match c.phase with
  | .reading => id ∉ sent.map Prod.fst
  | .sending command success =>
      Asks settings c.target command ∧ success = command.success ∧ id ∉ sent.map Prod.fst
  | .waiting command success =>
      Asks settings c.target command ∧ success = command.success ∧ (id, command) ∈ sent
  | .answered _ _ => True
  | .gone => True

structure Inv (settings : ProcessSettings deps) (s : Process deps) : Prop where
  accounted : s.mailbox.Accounted
  connections : ∀ id c, s.connections[id]? = some c → ConnectionOk settings s.mailbox.sent id c
  asked : ∀ request ∈ s.mailbox.sent,
    ∃ c, s.connections[request.1]? = some c ∧ Asks settings c.target request.2
  closed : s.mailbox.closed = true → ∃ result, s.main = .exited result
  readiness : ∀ ready, s.main.readiness = some ready → s.ready = ready

theorem setPhase_connections (s : Process deps) (id : Nat) (phase : ConnectionPhase) :
    (s.setPhase id phase).connections =
      s.connections.modify id fun c => { c with phase := phase } := rfl

/-- A connection after one of them was changed is as it was, or is the changed one. -/
theorem modify_cases {connections : List WebConnection} {id : Nat}
    {f : WebConnection → WebConnection} {id' : Nat} {c : WebConnection}
    (h : (connections.modify id f)[id']? = some c) :
    connections[id']? = some c ∧ id' ≠ id ∨
      id' = id ∧ ∃ c₀, connections[id]? = some c₀ ∧ c = f c₀ := by
  rw [List.getElem?_modify] at h
  obtain ⟨c₀, hc₀, hc⟩ := Option.map_eq_some_iff.mp h
  by_cases hid : id = id'
  · rw [if_pos hid] at hc
    subst hid
    exact .inr ⟨rfl, c₀, hc₀, hc.symm⟩
  · rw [if_neg hid] at hc
    rw [show c₀ = c from hc] at hc₀
    exact .inl ⟨hc₀, fun h => hid h.symm⟩

/-- What connections asked for is kept by a change of one that asked for nothing, or that still asks
    for the same. -/
theorem asked_modify {connections : List WebConnection} {sent : List (Nat × LifecycleCommand)}
    {id : Nat} {f : WebConnection → WebConnection}
    (hf : id ∈ sent.map Prod.fst → ∀ c, (f c).target = c.target)
    (h : ∀ request ∈ sent, ∃ c, connections[request.1]? = some c ∧ Asks settings c.target request.2) :
    ∀ request ∈ sent, ∃ c, (connections.modify id f)[request.1]? = some c ∧
      Asks settings c.target request.2 := by
  intro request hrequest
  obtain ⟨c, hc, hasks⟩ := h request hrequest
  rw [List.getElem?_modify, hc]
  by_cases hid : id = request.1
  · refine ⟨f c, by simp [hid], ?_⟩
    rw [hf (hid ▸ List.mem_map_of_mem hrequest)]
    exact hasks
  · exact ⟨c, by simp [hid], hasks⟩

namespace Inv

variable {s : Process deps}

theorem initial : Inv settings ({} : Process deps) where
  accounted := Mailbox.accounted_empty 4
  connections id c hc := by simp at hc
  asked request hrequest := by simp at hrequest
  closed hclosed := by cases hclosed
  readiness ready hready := by
    injection hready

theorem accept (h : Inv settings s) :
    Inv settings { s with connections := s.connections ++ [{}] } where
  accounted := h.accounted
  closed := h.closed
  readiness := h.readiness
  connections id c hc := by
    rw [List.getElem?_append] at hc
    split at hc
    · exact h.connections id c hc
    · next hlen =>
        -- A new connection has an index that nothing was sent under.
        have hc' : c = {} := by
          rw [List.getElem?_singleton] at hc
          split at hc
          · exact (Option.some.inj hc).symm
          · cases hc
        subst hc'
        intro hsent
        obtain ⟨request, hrequest, hid⟩ := List.mem_map.mp hsent
        obtain ⟨c, hold, -⟩ := h.asked request hrequest
        rw [hid] at hold
        exact hlen (List.getElem?_eq_some_iff.mp hold).1
  asked request hrequest := by
    obtain ⟨c, hc, hasks⟩ := h.asked request hrequest
    exact ⟨c, List.getElem?_append_left (List.getElem?_eq_some_iff.mp hc).1 ▸ hc, hasks⟩

/-- A connection may go to any phase that fits what it sent. -/
theorem setPhase (h : Inv settings s) {id : Nat} {phase : ConnectionPhase}
    (hok : ∀ c : WebConnection,
      ConnectionOk settings s.mailbox.sent id { c with phase := phase }) :
    Inv settings (s.setPhase id phase) where
  accounted := h.accounted
  closed := h.closed
  readiness := h.readiness
  connections id' c hc := by
    rw [setPhase_connections] at hc
    rcases modify_cases hc with ⟨hold, -⟩ | ⟨rfl, c₀, -, rfl⟩
    · exact h.connections id' c hold
    · exact hok c₀
  asked := asked_modify (fun _ _ => rfl) h.asked

theorem read (h : Inv settings s) {id : Nat} {c : WebConnection} (hc : s.connections[id]? = some c)
    (hphase : c.phase = .reading) (chunk : List UInt8) (metrics : Metrics)
    (process : Option ProcessStats) :
    Inv settings { s with
      connections := s.connections.modify id fun c =>
        c.receive ⟨s.ready, metrics, process, settings.lifecycle⟩ chunk } where
  accounted := h.accounted
  closed := h.closed
  readiness := h.readiness
  connections id' c' hc' := by
    rcases modify_cases hc' with ⟨hold, -⟩ | ⟨rfl, c₀, hc₀, rfl⟩
    · exact h.connections id' c' hold
    · obtain rfl : c = c₀ := Option.some.inj (hc.symm.trans hc₀)
      have hnever := h.connections id' c hc
      simp only [ConnectionOk, hphase] at hnever
      unfold ConnectionOk
      rcases c.receive_cases ⟨s.ready, metrics, process, settings.lifecycle⟩ chunk with
        hsame | ⟨-, -, hrouted⟩
      · rw [hsame, hphase]
        exact hnever
      · rw [hrouted]
        split
        · exact hnever
        · next hroute =>
            unfold ConnectionPhase.ofRouted at hroute
            split at hroute
            · cases hroute
            · next hask =>
                injection hroute with hcommand hsuccess
                subst hcommand hsuccess
                obtain ⟨henabled, hmethod, hpath, hsuccess⟩ := route_ask hask
                exact ⟨⟨henabled, hmethod, hpath⟩, hsuccess, hnever⟩
        · next hroute =>
            unfold ConnectionPhase.ofRouted at hroute
            split at hroute <;> cases hroute
        · trivial
        · trivial
  asked := by
    refine asked_modify (fun hsent => absurd hsent ?_) h.asked
    have hnever := h.connections id c hc
    simp only [ConnectionOk, hphase] at hnever
    exact hnever

theorem sent (h : Inv settings s) {id : Nat} {c : WebConnection} {command : LifecycleCommand}
    {success : String} (hc : s.connections[id]? = some c)
    (hphase : c.phase = .sending command success) (hopen : s.mailbox.closed = false)
    (hroom : s.mailbox.isFull = false) :
    Inv settings ({ s with mailbox := s.mailbox.send id command }.setPhase id
      (.waiting command success)) := by
  have hok := h.connections id c hc
  simp only [ConnectionOk, hphase] at hok
  obtain ⟨hasks, hsuccess, hnew⟩ := hok
  refine ⟨h.accounted.send hnew hroom hopen command, ?_, ?_, h.closed, h.readiness⟩
  · intro id' c' hc'
    rcases modify_cases hc' with ⟨hold, hne⟩ | ⟨rfl, c₀, hc₀, rfl⟩
    · have hold := h.connections id' c' hold
      unfold ConnectionOk at hold ⊢
      split
      · next hreading =>
          simp only [hreading] at hold
          simp [Process.setPhase, Mailbox.send, hold, hne]
      · next hsending =>
          simp only [hsending] at hold
          refine ⟨hold.1, hold.2.1, ?_⟩
          simp [Process.setPhase, Mailbox.send, hold.2.2, hne]
      · next hwaiting =>
          simp only [hwaiting] at hold
          exact ⟨hold.1, hold.2.1, List.mem_append_left _ hold.2.2⟩
      · trivial
      · trivial
    · obtain rfl : c = c₀ := Option.some.inj (hc.symm.trans hc₀)
      exact ⟨hasks, hsuccess, List.mem_append_right _ (List.mem_singleton_self _)⟩
  · refine asked_modify (fun _ _ => rfl) ?_
    intro request hrequest
    rcases List.mem_append.mp hrequest with hold | hnew
    · exact h.asked request hold
    · rw [List.mem_singleton.mp hnew]
      exact ⟨c, hc, hasks⟩

/-- Moves of the main loop that leave the channel alone. -/
theorem goto (h : Inv settings s) {main : Main deps} {ready : Bool}
    (hopen : ∀ result, s.main ≠ .exited result)
    (hready : ∀ shown, main.readiness = some shown → ready = shown) :
    Inv settings { s with main := main, ready := ready } where
  accounted := h.accounted
  connections := h.connections
  asked := h.asked
  closed hclosed := by
    obtain ⟨result, hresult⟩ := h.closed hclosed
    exact absurd hresult (hopen result)
  readiness := hready

theorem isOpen (h : Inv settings s) (hmain : ∀ result, s.main ≠ .exited result) :
    s.mailbox.closed = false := by
  rw [Bool.eq_false_iff]
  intro hclosed
  obtain ⟨result, hresult⟩ := h.closed hclosed
  exact hmain result hresult

theorem answer (h : Inv settings s) (hopen : s.mailbox.closed = false) (reply : Except String Unit) :
    Inv settings { s with mailbox := s.mailbox.answer reply } where
  accounted := h.accounted.answer hopen reply
  connections id c hc := by
    rw [Mailbox.answer_sent]
    exact h.connections id c hc
  asked request hrequest := by
    rw [Mailbox.answer_sent] at hrequest
    exact h.asked request hrequest
  closed hclosed := by
    rw [Mailbox.answer_closed] at hclosed
    exact h.closed hclosed
  readiness := h.readiness

theorem enter (h : Inv settings s) (hopen : ∀ result, s.main ≠ .exited result) {agent : Agent deps}
    (hready : ∀ shown, (s.enter agent).main.readiness = some shown → s.ready = shown) :
    Inv settings (s.enter agent) := by
  cases agent with
  | running pipeline => exact h.goto hopen hready
  | stopping pipeline reason => exact h.goto hopen hready
  | exited result =>
      exact ⟨h.accounted.close, h.connections, h.asked, fun _ => ⟨result, rfl⟩, hready⟩

theorem bringUp_readiness {world : World} {config : Config deps.relabel.engine} {generation : Nat}
    {shown : Bool} (h : (s.enter (bringUp deps world config generation)).main.readiness = some shown) :
    (generation != 0) = shown := by
  unfold bringUp at h
  split at h
  · exact Option.some.inj h
  · cases h

theorem launch_readiness {path : String} {world : World} {shown : Bool}
    (h : (s.enter (launch deps path world)).main.readiness = some shown) : false = shown := by
  unfold launch at h
  split at h
  · exact bringUp_readiness h
  · cases h

/-- **Every move keeps the invariant.** -/
theorem move (h : Inv settings s) {e : ProcessEvent} {s' : Process deps} (hmove : Move settings s e s') :
    Inv settings s' := by
  cases hmove with
  | stays | hungUpFailed => exact h
  | accepted => exact h.accept
  | read hc hphase chunk metrics process => exact h.read hc hphase chunk metrics process
  | refused => exact h.setPhase fun _ => trivial
  | sent hc hphase hopen hroom => exact h.sent hc hphase hopen hroom
  | replied => exact h.setPhase fun _ => trivial
  | discarded => exact h.setPhase fun _ => trivial
  | gone => exact h.setPhase fun _ => trivial
  | launched world hmain =>
      refine h.enter (by simp [hmain]) fun shown hshown => ?_
      rw [h.readiness false (by rw [hmain]; rfl)]
      exact launch_readiness hshown
  | readied world hmain => exact h.goto (by simp [hmain]) fun _ hshown => Option.some.inj hshown
  | left world hmain => exact h.goto (by simp [hmain]) fun _ hshown => Option.some.inj hshown
  | leftToReload world hmain =>
      refine h.goto (by simp [hmain]) fun _ hshown => ?_
      rw [h.readiness true (by rw [hmain]; rfl)]
      exact Option.some.inj hshown
  | finished world hmain =>
      refine h.enter (by simp [hmain]) fun _ hshown => ?_
      rw [h.readiness false (by rw [hmain]; rfl)]
      exact Option.some.inj hshown
  | restarted world hmain =>
      refine h.enter (by simp [hmain]) fun shown hshown => ?_
      rw [h.readiness true (by rw [hmain]; rfl), ← bringUp_readiness hshown]
      simp
  | hungUp hmain | interrupted hmain =>
      refine h.goto (by simp [hmain]) fun _ hshown => ?_
      rw [h.readiness true (by rw [hmain]; rfl)]
      exact Option.some.inj hshown
  | quit world hmain hqueue | reloaded hmain hqueue hload =>
      have hexited : ∀ result, s.main ≠ .exited result := by simp [hmain]
      refine (h.answer (h.isOpen hexited) _).goto hexited fun _ hshown => ?_
      rw [h.readiness true (by rw [hmain]; rfl)]
      exact Option.some.inj hshown
  | reloadFailed hmain hqueue hload => exact h.answer (h.isOpen (by simp [hmain])) _

end Inv

theorem inv_after (settings : ProcessSettings deps) (events : List ProcessEvent) :
    Inv settings (after settings events) :=
  Transition.run_invariant (fun s e h => h.move (s.step_cases e)) Inv.initial events

/-! ## Answers -/

theorem after_concat (events : List ProcessEvent) (e : ProcessEvent) :
    after settings (events ++ [e]) = (after settings events).step settings e := by
  rw [after, Transition.run, List.foldl_append]
  rfl

/-- The accounts only grow, and once the channel is closed nothing is sent. -/
structure Grows (m m' : Mailbox Nat LifecycleCommand (Except String Unit)) : Prop where
  answered : m.answered ⊆ m'.answered
  discarded : m.discarded ⊆ m'.discarded
  closed : m.closed = true → m'.closed = true ∧ m'.sent = m.sent

theorem grows_refl (m : Mailbox Nat LifecycleCommand (Except String Unit)) : Grows m m :=
  ⟨fun _ h => h, fun _ h => h, fun h => ⟨h, rfl⟩⟩

theorem grows_answer (m : Mailbox Nat LifecycleCommand (Except String Unit))
    (reply : Except String Unit) : Grows m (m.answer reply) := by
  refine ⟨?_, ?_, fun h => ⟨by rw [Mailbox.answer_closed, h], Mailbox.answer_sent m reply⟩⟩
  · unfold Mailbox.answer
    split
    · exact fun _ h => h
    · exact List.subset_append_left _ _
  · unfold Mailbox.answer
    split <;> exact fun _ h => h

theorem grows_enter (s : Process deps) (agent : Agent deps) :
    Grows s.mailbox (s.enter agent).mailbox := by
  cases agent with
  | running pipeline | stopping pipeline reason => exact grows_refl _
  | exited result =>
      exact ⟨fun _ h => h, List.subset_append_left _ _, fun _ => ⟨rfl, rfl⟩⟩

theorem Move.grows {s s' : Process deps} {e : ProcessEvent} (h : Move settings s e s') :
    Grows s.mailbox s'.mailbox := by
  cases h with
  | launched | finished | restarted => exact grows_enter s _
  | quit | reloaded | reloadFailed => exact grows_answer _ _
  | sent hc hphase hopen hroom =>
      refine ⟨fun _ h => h, fun _ h => h, fun hclosed => ?_⟩
      rw [hopen] at hclosed
      cases hclosed
  | _ => exact grows_refl _

/-- A reason stays a reason. -/
theorem answered_concat {events : List ProcessEvent} {id : Nat} {target : String × String}
    {status body : String} (h : Answered settings events id target status body) (e : ProcessEvent) :
    Answered settings (events ++ [e]) id target status body := by
  have hgrows : Grows (after settings events).mailbox (after settings (events ++ [e])).mailbox := by
    rw [after_concat]
    exact ((after settings events).step_cases e).grows
  cases h with
  | routed hpast hconnection hreading hlast htarget hroute =>
      exact .routed (by rw [hpast, List.append_assoc, List.cons_append]) hconnection hreading hlast
        htarget hroute
  | handled hasks hreply => exact .handled hasks (hgrows.answered hreply)
  | discarded hasks hdiscarded => exact .discarded hasks (hgrows.discarded hdiscarded)
  | late hasks hclosed hnever =>
      obtain ⟨hclosed, hsame⟩ := hgrows.closed hclosed
      exact .late hasks hclosed (by rwa [hsame])

/-- A connection that the event answered has its reason in what was before. -/
theorem Move.answers {events : List ProcessEvent} {e : ProcessEvent} {s' : Process deps}
    (h : Move settings (after settings events) e s') (hnext : s' = after settings (events ++ [e]))
    {id : Nat} {c : WebConnection} {status body : String} (hc : s'.connections[id]? = some c)
    (hphase : c.phase = .answered status body) :
    (after settings events).connections[id]? = some c ∨
      Answered settings (events ++ [e]) id c.target status body := by
  have hinv := inv_after settings events
  have hgrows := h.grows
  rw [hnext] at hgrows
  cases h with
  | accepted =>
      rw [List.getElem?_append] at hc
      split at hc
      · exact .inl hc
      · rw [List.getElem?_singleton] at hc
        split at hc
        · rw [← Option.some.inj hc] at hphase
          cases hphase
        · cases hc
  | read hread hreading chunk metrics process =>
      rcases modify_cases hc with ⟨hold, -⟩ | ⟨rfl, c₀, hc₀, rfl⟩
      · exact .inl hold
      · right
        obtain rfl := Option.some.inj (hread.symm.trans hc₀)
        rcases WebConnection.receive_cases _ ⟨(after settings events).ready, metrics, process,
          settings.lifecycle⟩ chunk with hsame | ⟨hlast, htarget, hrouted⟩
        · rw [hsame, hreading] at hphase
          cases hphase
        · refine .routed rfl hread hreading hlast htarget ?_
          rw [hrouted] at hphase
          unfold ConnectionPhase.ofRouted at hphase
          split at hphase
          · next hroute =>
              cases hphase
              exact hroute
          · cases hphase
  | refused hsend hsending hclosed =>
      rcases modify_cases hc with ⟨hold, -⟩ | ⟨rfl, c₀, hc₀, rfl⟩
      · exact .inl hold
      · right
        obtain rfl := Option.some.inj (hsend.symm.trans hc₀)
        have hok := hinv.connections _ _ hsend
        simp only [ConnectionOk, hsending] at hok
        obtain ⟨hnow, hsame⟩ := hgrows.closed hclosed
        cases hphase
        exact .late hok.1 hnow (by rw [hsame]; exact hok.2.2)
  | sent =>
      rcases modify_cases hc with ⟨hold, -⟩ | ⟨rfl, c₀, -, rfl⟩
      · exact .inl hold
      · cases hphase
  | replied hwait hwaiting hreply =>
      rcases modify_cases hc with ⟨hold, -⟩ | ⟨rfl, c₀, hc₀, rfl⟩
      · exact .inl hold
      · right
        obtain rfl := Option.some.inj (hwait.symm.trans hc₀)
        have hok := hinv.connections _ _ hwait
        simp only [ConnectionOk, hwaiting] at hok
        obtain ⟨hasks, rfl, hsent⟩ := hok
        cases hphase
        exact .handled hasks (hgrows.answered (hinv.accounted.of_replied hsent hreply))
  | discarded hwait hwaiting hdropped =>
      rcases modify_cases hc with ⟨hold, -⟩ | ⟨rfl, c₀, hc₀, rfl⟩
      · exact .inl hold
      · right
        obtain rfl := Option.some.inj (hwait.symm.trans hc₀)
        have hok := hinv.connections _ _ hwait
        simp only [ConnectionOk, hwaiting] at hok
        obtain ⟨hasks, -, hsent⟩ := hok
        cases hphase
        exact .discarded hasks (hgrows.discarded (hinv.accounted.of_dropped hsent hdropped))
  | gone =>
      rcases modify_cases hc with ⟨hold, -⟩ | ⟨rfl, c₀, -, rfl⟩
      · exact .inl hold
      · cases hphase
  | launched | finished | restarted =>
      left
      unfold enter at hc
      split at hc <;> exact hc
  | _ => exact .inl hc

theorem answers_after (settings : ProcessSettings deps) (events : List ProcessEvent) :
    ∀ id c status body, (after settings events).connections[id]? = some c →
      c.phase = .answered status body → Answered settings events id c.target status body := by
  induction events using List.reverseRecOn with
  | nil =>
      intro id c status body hc
      simp [after, Transition.run] at hc
  | append_singleton events e ih =>
      intro id c status body hc hphase
      rw [after_concat] at hc
      rcases ((after settings events).step_cases e).answers (after_concat events e).symm hc hphase
        with hold | hnew
      · exact answered_concat (ih id c status body hold hphase) e
      · exact hnew

end Process

/-- **Every answer has its reason.** Whatever the order of connections, reads, requests, signals and
    time-outs: commands are handled first come, first served, each once, and only those that a client
    asked for; each answer is what `route` decided in the state of the request's last read, or how the
    main loop handled the client's own command, or that it ended before it did; and the process shows
    itself ready from its first pipeline on until it shuts down. -/
theorem process_serves (settings : ProcessSettings deps) (events : List ProcessEvent) :
    ServesRequests settings events := by
  have h := Process.inv_after settings events
  exact ⟨h.accounted, h.asked, Process.answers_after settings events, h.readiness⟩

/-! ## The main loop -/

namespace AgentRun

variable {path : String} {run : AgentRun deps} {pipeline : Pipeline deps}

theorem reload_of_running (h : run.agent = .running pipeline) (http : Bool) (world : World) :
    (run.reload path http world).agent = (reloadPipeline deps path pipeline http world).after ∧
      (run.reload path http world).responses =
        run.responses ++ (reloadPipeline deps path pipeline http world).response.toList := by
  rw [AgentRun.reload, h]
  refine ⟨rfl, ?_⟩
  simp only [responses, List.filterMap_append, List.filterMap_cons, List.filterMap_nil]
  cases (reloadPipeline deps path pipeline http world).response <;> rfl

/-- The end of a teardown answers nobody. -/
theorem ended_responses (world : World) : (run.ended world).responses = run.responses := by
  unfold AgentRun.ended
  split
  · rfl
  · rcases run.reloads_cases with hnil | ⟨before, r, hconcat⟩
    · simp [responses, hnil]
    · simp only [responses, hconcat, List.dropLast_concat, List.getLast?_concat, Option.map_some,
        Option.toList_some, List.filterMap_append, List.filterMap_cons, List.filterMap_nil]
  · rfl

end AgentRun

theorem launchWorld_concat (events : List ProcessEvent) (e : ProcessEvent) :
    launchWorld (events ++ [e]) = (launchWorld events).or (launchWorld [e]) := by
  induction events with
  | nil => rfl
  | cons first rest ih =>
      cases first with
      | advance world => rfl
      | _ => exact ih

namespace Process

theorem agentEvents_concat (events : List ProcessEvent) (e : ProcessEvent) :
    agentEvents settings (events ++ [e]) =
      agentEvents settings events ++ ((after settings events).agentEvent e).toList := by
  have hfrom : ∀ (s : Process deps), agentEventsFrom settings s (events ++ [e]) =
      agentEventsFrom settings s events ++
        ((Transition.run (step settings) s events).agentEvent e).toList := by
    induction events with
    | nil => simp [agentEventsFrom]
    | cons first rest ih =>
        intro s
        rw [List.cons_append, agentEventsFrom, ih, agentEventsFrom, List.append_assoc]
        rfl
  exact hfrom {}

/-- The main loop is where the run is, and has told its clients what the run says of them. -/
structure Follows (s : Process deps) (run : AgentRun deps) : Prop where
  agent : s.main.agent? = some run.agent
  responses : s.reloadResponses = run.responses

theorem reloadResponses_answer {s : Process deps} {id : Nat} {command : LifecycleCommand}
    {rest : List (Nat × LifecycleCommand)} (h : s.mailbox.queue = (id, command) :: rest)
    (reply : Except String Unit) :
    { s with mailbox := s.mailbox.answer reply }.reloadResponses =
      s.reloadResponses ++ if command = .reload then [reloadResponse reply] else [] := by
  simp only [reloadResponses, Mailbox.answer_eq h, List.filterMap_append]
  cases command <;> rfl

theorem enter_agent (s : Process deps) (agent : Agent deps) :
    (s.enter agent).main.agent? = some agent ∧
      (s.enter agent).reloadResponses = s.reloadResponses := by
  cases agent <;> exact ⟨rfl, rfl⟩

namespace Follows

variable {s s' : Process deps} {run : AgentRun deps} {pipeline : Pipeline deps} {path : String}

/-- Steps that the agent does not see. -/
theorem of_same (h : Follows s run) (hmain : s'.main.agent? = s.main.agent?)
    (hanswered : s'.mailbox.answered = s.mailbox.answered) : Follows s' run := by
  refine ⟨hmain.trans h.agent, ?_⟩
  rw [← h.responses, reloadResponses, reloadResponses, hanswered]

theorem agent_eq (h : Follows s run) {agent : Agent deps} (hmain : s.main.agent? = some agent) :
    run.agent = agent :=
  Option.some.inj (h.agent.symm.trans hmain)

theorem stop (h : Follows s run) (hmain : s.main = .waiting pipeline)
    (hafter : s'.main = .leaving pipeline .shutdown)
    (hresponses : s'.reloadResponses = s.reloadResponses) : Follows s' run.stop := by
  have hrunning : run.agent = .running pipeline := h.agent_eq (by rw [hmain]; rfl)
  refine ⟨?_, ?_⟩
  · rw [hafter, AgentRun.stop, hrunning]
    rfl
  · rw [hresponses, h.responses, AgentRun.stop, hrunning]
    rfl

/-- A reload in the main loop is one of the agent. -/
theorem reload (h : Follows s run) (hmain : s.main = .waiting pipeline) {http : Bool} {world : World}
    (hafter : s'.main.agent? = some (reloadPipeline deps path pipeline http world).after)
    (hresponses : s'.reloadResponses =
      s.reloadResponses ++ (reloadPipeline deps path pipeline http world).response.toList) :
    Follows s' (run.reload path http world) := by
  have hrunning : run.agent = .running pipeline := h.agent_eq (by rw [hmain]; rfl)
  obtain ⟨hagent, hanswers⟩ := @AgentRun.reload_of_running _ path _ _ hrunning http world
  exact ⟨by rw [hafter, hagent], by rw [hresponses, h.responses, hanswers]⟩

theorem ended (h : Follows s run) {agent : Agent deps} {world : World}
    (hagent : (run.ended world).agent = agent) : Follows (s.enter agent) (run.ended world) := by
  obtain ⟨henter, hresponses⟩ := enter_agent s agent
  exact ⟨by rw [henter, hagent], by rw [hresponses, h.responses, AgentRun.ended_responses]⟩

/-- **Every move of the process is a move of the agent, or none.** -/
theorem move {e : ProcessEvent} (h : Follows s run) (hmove : Move settings s e s') :
    Follows s' (Transition.run (AgentRun.step settings.path) run (s.agentEvent e).toList) := by
  cases hmove with
  | stays hidle _ =>
      rw [hidle]
      exact h
  | launched world hmain =>
      have hagent := h.agent
      rw [hmain] at hagent
      cases hagent
  | readied world hmain | left world hmain | leftToReload world hmain =>
      -- From one wait of the main loop to the next, within one state of the agent.
      simp only [agentEvent, hmain]
      exact h.of_same (by rw [hmain]; rfl) rfl
  | finished world hmain | restarted world hmain =>
      simp only [agentEvent, hmain]
      refine h.ended ?_
      rw [AgentRun.ended, h.agent_eq (by rw [hmain]; rfl)]
  | hungUp hmain hload =>
      simp only [agentEvent, hmain]
      refine h.reload hmain ?_ ?_ <;> rw [reloadPipeline_of_ok hload]
      · rfl
      · exact (List.append_nil _).symm
  | hungUpFailed hmain hload =>
      simp only [agentEvent, hmain]
      refine h.reload hmain ?_ ?_ <;> rw [reloadPipeline_of_error hload]
      · rw [hmain]
        rfl
      · exact (List.append_nil _).symm
  | interrupted hmain =>
      simp only [agentEvent, hmain]
      exact h.stop hmain rfl rfl
  | quit world hmain hqueue =>
      simp only [agentEvent, hmain, hqueue]
      refine h.stop hmain rfl ?_
      have hresponses := reloadResponses_answer hqueue (.ok ())
      rwa [if_neg (by decide), List.append_nil] at hresponses
  | reloaded hmain hqueue hload =>
      simp only [agentEvent, hmain, hqueue]
      refine h.reload hmain ?_ ?_ <;> rw [reloadPipeline_of_ok hload]
      · rfl
      · exact reloadResponses_answer hqueue (.ok ())
  | reloadFailed hmain hqueue hload =>
      simp only [agentEvent, hmain, hqueue]
      refine h.reload hmain ?_ ?_ <;> rw [reloadPipeline_of_error hload]
      · rfl
      · exact reloadResponses_answer hqueue (.error _)
  | _ => exact h.of_same rfl rfl

end Follows

/-- Before its launch, the main loop has taken up nothing. -/
structure Launching (settings : ProcessSettings deps) (events : List ProcessEvent) : Prop where
  launched : launchWorld events = none
  main : (after settings events).main = .launching
  answered : (after settings events).mailbox.answered = []
  idle : agentEvents settings events = []

theorem Launching.concat {events : List ProcessEvent} (h : Launching settings events)
    (e : ProcessEvent) :
    Launching settings (events ++ [e]) ∨ ∃ world, Performs settings (events ++ [e]) world := by
  have hmove := @step_cases deps settings (after settings events) e
  rw [← after_concat] at hmove
  have hidle : (after settings events).agentEvent e = none := by
    cases e <;> simp [agentEvent, h.main]
  have hevents : agentEvents settings (events ++ [e]) = [] := by
    rw [agentEvents_concat, h.idle, hidle]
    rfl
  have hlaunch := launchWorld_concat events e
  rw [h.launched, Option.none_or] at hlaunch
  obtain ⟨s', hs'⟩ : ∃ s', after settings (events ++ [e]) = s' := ⟨_, rfl⟩
  have hmain := h.main
  rw [hs'] at hmove
  cases hmove with
  | launched world _ =>
      -- The run begins here.
      right
      obtain ⟨hagent, hresponses⟩ := enter_agent (after settings events)
        (launch deps settings.path world)
      refine ⟨world, hlaunch, ?_, ?_⟩
      · rw [hs', hevents, hagent]
        rfl
      · rw [hs', hevents, hresponses, reloadResponses, h.answered]
        rfl
  | stays _ hlaunched =>
      exact .inl ⟨hlaunch.trans (hlaunched h.main), hs' ▸ h.main, hs' ▸ h.answered, hevents⟩
  | readied _ hother | left _ hother | leftToReload _ hother | finished _ hother
  | restarted _ hother | hungUp hother | hungUpFailed hother | interrupted hother
  | quit _ hother | reloaded hother | reloadFailed hother =>
      rw [hmain] at hother
      cases hother
  | _ => exact .inl ⟨hlaunch, hs' ▸ h.main, hs' ▸ h.answered, hevents⟩

theorem performs_after (settings : ProcessSettings deps) (events : List ProcessEvent) :
    Launching settings events ∨ ∃ world, Performs settings events world := by
  induction events using List.reverseRecOn with
  | nil => exact .inl ⟨rfl, rfl, rfl, rfl⟩
  | append_singleton events e ih =>
      rcases ih with hlaunching | ⟨world, hperforms⟩
      · exact hlaunching.concat e
      · right
        have hfollows : Follows (after settings events)
            (runAgent deps settings.path world (agentEvents settings events)) :=
          ⟨hperforms.agent, hperforms.responses⟩
        have hnext := hfollows.move (@step_cases deps settings (after settings events) e)
        rw [← after_concat] at hnext
        have hrun : Transition.run (AgentRun.step settings.path)
            (runAgent deps settings.path world (agentEvents settings events))
            ((after settings events).agentEvent e).toList =
              runAgent deps settings.path world (agentEvents settings (events ++ [e])) := by
          rw [agentEvents_concat, runAgent, runAgent, Transition.run, Transition.run, Transition.run,
            List.foldl_append]
        rw [hrun] at hnext
        refine ⟨world, ?_, hnext.agent, hnext.responses⟩
        rw [launchWorld_concat, hperforms.launched, Option.some_or]

end Process

/-- **The process performs a run of the agent.** Whatever connections do in between, the main loop is at
    every moment where the run of `runAgent` is that takes up the same signals, requests and ends of
    teardowns in the same order and with the same files, from the launch on; and what it told the
    clients that asked for reloads is what that run says of them, in order. Before the launch it has
    told nobody anything. -/
theorem process_performs (settings : ProcessSettings deps) (events : List ProcessEvent) :
    (launchWorld events = none ∧ (Process.after settings events).main = .launching ∧
      (Process.after settings events).reloadResponses = []) ∨
      ∃ world, Performs settings events world := by
  rcases Process.performs_after settings events with hlaunching | hperforms
  · refine .inl ⟨hlaunching.launched, hlaunching.main, ?_⟩
    rw [Process.reloadResponses, hlaunching.answered]
    rfl
  · exact .inr hperforms

end PromScrape
