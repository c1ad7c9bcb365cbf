import PromScrape.Implementation.Process

set_option autoImplicit false

/-! # What the HTTP endpoint owes its callers

Stated over whole runs: which answers a connection may give and what must have happened for it, which
lifecycle requests reach the main loop, when the process says that it is ready, and which run of
`runAgent` the main loop performs. -/

namespace PromScrape

namespace LifecycleCommand

def path : LifecycleCommand → String
  | .reload => "/-/reload"
  | .quit => "/-/quit"

def success : LifecycleCommand → String
  | .reload => "Configuration reloaded.\n"
  | .quit => "Requesting termination.\n"

end LifecycleCommand

section

variable {deps : LifecycleDeps}

/-- The target asks for a command, and the lifecycle API is enabled. -/
structure Asks (settings : ProcessSettings deps) (target : String × String)
    (command : LifecycleCommand) : Prop where
  enabled : settings.lifecycle = true
  method : target.1 = "POST" ∨ target.1 = "PUT"
  path : target.2 = command.path

/-- Why a connection answers with a status and a body, after some events. -/
inductive Answered (settings : ProcessSettings deps) (events : List ProcessEvent) (id : Nat)
    (target : String × String) : String → String → Prop where
  /-- It is what `route` said in the state of its last read, the one that ended the request. -/
  | routed {front rest : List ProcessEvent} {chunk : List UInt8} {metrics : Metrics}
      {process : Option ProcessStats} {c : WebConnection} {status body : String}
      (hpast : events = front ++ .read id chunk metrics process :: rest)
      (hconnection : (Process.after settings front).connections[id]? = some c)
      (hreading : c.phase = .reading) (hlast : (c.read.read chunk).finished = true)
      (htarget : target = parseRequest (c.read.read chunk).request)
      (hroute : route ⟨(Process.after settings front).ready, metrics, process, settings.lifecycle⟩
        target.1 target.2 = .answer status body) :
      Answered settings events id target status body
  /-- The main loop handled its command, and this is how that ended. -/
  | handled {command : LifecycleCommand} {reply : Except String Unit}
      (hasks : Asks settings target command)
      (hreply : ((id, command), reply) ∈ (Process.after settings events).mailbox.answered) :
      Answered settings events id target (lifecycleResponse command.success reply).1
        (lifecycleResponse command.success reply).2
  /-- The main loop ended before it took the command. -/
  | discarded {command : LifecycleCommand} (hasks : Asks settings target command)
      (hdiscarded : (id, command) ∈ (Process.after settings events).mailbox.discarded) :
      Answered settings events id target "500 Internal Server Error"
        "lifecycle handler dropped the request\n"
  /-- The main loop had ended before the command could be sent. -/
  | late {command : LifecycleCommand} (hasks : Asks settings target command)
      (hclosed : (Process.after settings events).mailbox.closed = true)
      (hnever : id ∉ (Process.after settings events).mailbox.sent.map Prod.fst) :
      Answered settings events id target "500 Internal Server Error" "lifecycle handler is gone\n"

/-- Whether the process shows itself ready; once it has exited with an error, either may be. -/
def Main.readiness : Main deps → Option Bool
  | .launching => some false
  | .started pipeline => some (pipeline.generation != 0)
  | .waiting _ => some true
  | .leaving _ _ => some true
  | .stopping _ .shutdown => some false
  | .stopping _ (.reload _) => some true
  | .exited (.ok ()) => some false
  | .exited (.error _) => none

/-- What the endpoint owes its callers in every state it reaches. -/
structure ServesRequests (settings : ProcessSettings deps) (events : List ProcessEvent) : Prop where
  /-- Commands are handled first come, first served, each once and none without a request. -/
  accounted : (Process.after settings events).mailbox.Accounted
  asked : ∀ request ∈ (Process.after settings events).mailbox.sent,
    ∃ c, (Process.after settings events).connections[request.1]? = some c ∧
      Asks settings c.target request.2
  answers : ∀ id c status body, (Process.after settings events).connections[id]? = some c →
    c.phase = .answered status body → Answered settings events id c.target status body
  readiness : ∀ ready, (Process.after settings events).main.readiness = some ready →
    (Process.after settings events).ready = ready

/-! ## The main loop -/

/-- The process that a place in the loop stands for. -/
def Main.agent? : Main deps → Option (Agent deps)
  | .launching => none
  | .started pipeline => some (.running pipeline)
  | .waiting pipeline => some (.running pipeline)
  | .leaving pipeline reason => some (.stopping pipeline reason)
  | .stopping pipeline reason => some (.stopping pipeline reason)
  | .exited result => some (.exited result)

namespace Process

/-- The answers to reload requests, as they go back over HTTP. -/
def reloadResponses (s : Process deps) : List (String × String) :=
  s.mailbox.answered.filterMap fun entry =>
    if entry.1.2 = .reload then some (reloadResponse entry.2) else none

/-- What the main loop takes up when this happens, if anything. -/
def agentEvent (s : Process deps) : ProcessEvent → Option AgentEvent
  | .advance world =>
      match s.main with
      | .stopping _ _ => some (.ended world)
      | _ => none
  | .hangup world =>
      match s.main with
      | .waiting _ => some (.hangup world)
      | _ => none
  | .interrupt =>
      match s.main with
      | .waiting _ => some .stop
      | _ => none
  | .receive world =>
      match s.main, s.mailbox.queue with
      | .waiting _, (_, .quit) :: _ => some .stop
      | .waiting _, (_, .reload) :: _ => some (.reload world)
      | _, _ => none
  | _ => none

/-- What the main loop takes up in a run that begins in a state, in order. -/
def agentEventsFrom (settings : ProcessSettings deps) : Process deps → List ProcessEvent →
    List AgentEvent
  | _, [] => []
  | s, e :: rest => (s.agentEvent e).toList ++ agentEventsFrom settings (s.step settings e) rest

def agentEvents (settings : ProcessSettings deps) (events : List ProcessEvent) : List AgentEvent :=
  agentEventsFrom settings {} events

end Process

/-- The files that the main loop is launched with: those of its first step. -/
def launchWorld : List ProcessEvent → Option World
  | [] => none
  | .advance world :: _ => some world
  | _ :: rest => launchWorld rest

/-- After these events, the main loop is where the run of `runAgent` is that takes up the same, each
    with the files of its step, and the reload requests got the answers of that run, in order. -/
structure Performs (settings : ProcessSettings deps) (events : List ProcessEvent) (world : World) :
    Prop where
  launched : launchWorld events = some world
  agent : (Process.after settings events).main.agent? =
    some (runAgent deps settings.path world (Process.agentEvents settings events)).agent
  responses : (Process.after settings events).reloadResponses =
    (runAgent deps settings.path world (Process.agentEvents settings events)).responses

end

end PromScrape
