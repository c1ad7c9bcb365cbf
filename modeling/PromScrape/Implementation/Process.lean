import PromScrape.Library.Mailbox
import PromScrape.Implementation.Web
import PromScrape.Implementation.Lifecycle

set_option autoImplicit false

/-! # The main loop and the HTTP endpoint (`run` and `wait_for_stop` in `src/main.rs`, `serve`,
`handle_connection` and `lifecycle_request` in `src/web.rs`)

Connections and the main loop are tasks that share the readiness flag and a channel of lifecycle
requests; each event below is a step of one of them, from one wait to the next, and events may come in
any order. The metrics that a connection renders are part of its event. Which files there are is an
input of the steps that read them. -/

namespace PromScrape

/-! ## Connections -/

/-- Where a connection waits. -/
inductive ConnectionPhase where
  | reading
  /-- For a place in the channel. -/
  | sending (command : LifecycleCommand) (success : String)
  /-- For the main loop's answer. -/
  | waiting (command : LifecycleCommand) (success : String)
  /-- It writes its answer, or has written it. -/
  | answered (status body : String)
  /-- It failed or took more than five seconds. -/
  | gone
deriving DecidableEq, Repr

structure WebConnection where
  read : RequestRead := {}
  phase : ConnectionPhase := .reading
deriving DecidableEq, Repr

/-- The method and path that a connection asks for. -/
def WebConnection.target (c : WebConnection) : String × String := parseRequest c.read.request

/-- A connection that was routed. -/
def ConnectionPhase.ofRouted : Routed → ConnectionPhase
  | .answer status body => .answered status body
  | .ask command success => .sending command success

/-- A read, and if it was the last one, the route. -/
def WebConnection.receive (c : WebConnection) (state : WebState) (chunk : List UInt8) :
    WebConnection :=
  let read := c.read.read chunk
  if read.finished then
    let (method, path) := parseRequest read.request
    { read := read, phase := .ofRouted (route state method path) }
  else { c with read := read }

/-- What `lifecycle_request` makes of the main loop's answer. -/
def lifecycleResponse (success : String) : Except String Unit → String × String
  | .ok () => ("200 OK", success)
  | .error message => ("500 Internal Server Error", message ++ "\n")

/-! ## The process -/

/-- Where `run` is. -/
inductive Main (deps : LifecycleDeps) where
  /-- Before its first pipeline. -/
  | launching
  /-- A pipeline is up; the readiness flag is yet to be set. -/
  | started (pipeline : Pipeline deps)
  /-- In `wait_for_stop`. -/
  | waiting (pipeline : Pipeline deps)
  /-- `wait_for_stop` has returned. -/
  | leaving (pipeline : Pipeline deps) (reason : StopReason deps)
  /-- It waits for the tasks of the pipeline to end. -/
  | stopping (pipeline : Pipeline deps) (reason : StopReason deps)
  | exited (result : Except String Unit)

structure Process (deps : LifecycleDeps) where
  main : Main deps := .launching
  ready : Bool := false
  mailbox : Mailbox Nat LifecycleCommand (Except String Unit) := { capacity := 4 }
  connections : List WebConnection := []

inductive ProcessEvent where
  /-- A connection is accepted. -/
  | accept
  /-- A read of a connection, and the metrics there are then. -/
  | read (id : Nat) (chunk : List UInt8) (metrics : Metrics) (process : Option ProcessStats)
  /-- A connection gets its place in the channel, or finds it closed. -/
  | send (id : Nat)
  /-- A connection gets the main loop's answer. -/
  | resume (id : Nat)
  | drop (id : Nat)
  /-- The main loop goes on. -/
  | advance (world : World)
  /-- SIGHUP. -/
  | hangup (world : World)
  /-- SIGTERM or SIGINT. -/
  | interrupt
  /-- The main loop takes a lifecycle request. -/
  | receive (world : World)

/-- What every step of a process has at hand. -/
structure ProcessSettings (deps : LifecycleDeps) where
  path : String
  lifecycle : Bool

namespace Process

variable {deps : LifecycleDeps}

def setPhase (s : Process deps) (id : Nat) (phase : ConnectionPhase) : Process deps :=
  { s with connections := s.connections.modify id fun c => { c with phase := phase } }

/-- What `bringUp` and `launch` come to, for a loop that has not set the flag yet; the receiver of the
channel goes with `run`. -/
def enter (s : Process deps) : Agent deps → Process deps
  | .running pipeline => { s with main := .started pipeline }
  | .stopping pipeline reason => { s with main := .stopping pipeline reason }
  | .exited result => { s with main := .exited result, mailbox := s.mailbox.close }

def advance (settings : ProcessSettings deps) (world : World) (s : Process deps) : Process deps :=
  match s.main with
  | .launching => s.enter (launch deps settings.path world)
  | .started pipeline => { s with main := .waiting pipeline, ready := true }
  | .waiting _ => s
  | .leaving pipeline .shutdown => { s with main := .stopping pipeline .shutdown, ready := false }
  | .leaving pipeline (.reload config) => { s with main := .stopping pipeline (.reload config) }
  | .stopping _ .shutdown => s.enter (.exited (.ok ()))
  | .stopping pipeline (.reload config) =>
      s.enter (bringUp deps world config (pipeline.generation + 1))
  | .exited _ => s

/-- SIGHUP in `wait_for_stop`. -/
def hangup (settings : ProcessSettings deps) (world : World) (s : Process deps) : Process deps :=
  match s.main with
  | .waiting pipeline =>
      match loadConfig deps settings.path world with
      | .ok config => { s with main := .leaving pipeline (.reload config) }
      | .error _ => s
  | _ => s

/-- SIGTERM or SIGINT in `wait_for_stop`. -/
def interrupt (s : Process deps) : Process deps :=
  match s.main with
  | .waiting pipeline => { s with main := .leaving pipeline .shutdown }
  | _ => s

/-- A lifecycle request in `wait_for_stop`: its answer is sent before the loop goes on. -/
def receive (settings : ProcessSettings deps) (world : World) (s : Process deps) : Process deps :=
  match s.main, s.mailbox.queue with
  | .waiting pipeline, (_, .quit) :: _ =>
      { s with main := .leaving pipeline .shutdown, mailbox := s.mailbox.answer (.ok ()) }
  | .waiting pipeline, (_, .reload) :: _ =>
      match loadConfig deps settings.path world with
      | .ok config =>
          { s with
            main := .leaving pipeline (.reload config)
            mailbox := s.mailbox.answer (.ok ()) }
      | .error err => { s with mailbox := s.mailbox.answer (.error err) }
  | _, _ => s

/-- `lifecycle.send(..)`. -/
def send (id : Nat) (s : Process deps) : Process deps :=
  match s.connections[id]? with
  | some ⟨_, .sending command success⟩ =>
      if s.mailbox.closed then
        s.setPhase id (.answered "500 Internal Server Error" "lifecycle handler is gone\n")
      else if s.mailbox.isFull then s
      else { s with mailbox := s.mailbox.send id command }.setPhase id (.waiting command success)
  | _ => s

/-- `outcome.await`. -/
def resume (id : Nat) (s : Process deps) : Process deps :=
  match s.connections[id]? with
  | some ⟨_, .waiting _ success⟩ =>
      match s.mailbox.reception id with
      | .replied reply =>
          s.setPhase id (.answered (lifecycleResponse success reply).1
            (lifecycleResponse success reply).2)
      | .dropped =>
          s.setPhase id
            (.answered "500 Internal Server Error" "lifecycle handler dropped the request\n")
      | .pending => s
  | _ => s

def read (settings : ProcessSettings deps) (id : Nat) (chunk : List UInt8) (metrics : Metrics)
    (process : Option ProcessStats) (s : Process deps) : Process deps :=
  match s.connections[id]? with
  | some ⟨_, .reading⟩ =>
      { s with
        connections := s.connections.modify id fun c =>
          c.receive ⟨s.ready, metrics, process, settings.lifecycle⟩ chunk }
  | _ => s

def step (settings : ProcessSettings deps) (s : Process deps) : ProcessEvent → Process deps
  | .accept => { s with connections := s.connections ++ [{}] }
  | .read id chunk metrics process => s.read settings id chunk metrics process
  | .send id => s.send id
  | .resume id => s.resume id
  | .drop id => s.setPhase id .gone
  | .advance world => s.advance settings world
  | .hangup world => s.hangup settings world
  | .interrupt => s.interrupt
  | .receive world => s.receive settings world

/-- The process after some events. -/
def after (settings : ProcessSettings deps) (events : List ProcessEvent) : Process deps :=
  Transition.run (step settings) {} events

end Process

end PromScrape
