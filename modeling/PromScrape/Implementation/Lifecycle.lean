import PromScrape.Library.Transition
import PromScrape.Implementation.Auth
import PromScrape.Implementation.RemoteWrite

set_option autoImplicit false

/-! # Loading and reloading (`config::load` in `src/config.rs`, `run` and `wait_for_stop` in
`src/main.rs`, the lifecycle requests of `src/web.rs`)

The process holds one pipeline at a time. A stop signal or a quit request tears it down and ends the
process. A reload request loads the configuration again; if that succeeds, the request is answered, the
old pipeline is torn down, and only then a new one is built. To tear a pipeline down is to wait for its
tasks, and a sender retries what it still holds for as long as its receiver asks for that: it may take
any time, or never come to an end, and nothing is taken from the signals and the requests meanwhile.

The YAML parser is a parameter. Files may change at any time, so each event carries those that its step
sees. Tasks inside the pipeline are the subject of other files. -/

namespace PromScrape

open Regex (Engine)

/-- What bringing up a configuration calls outside the repository. -/
structure LifecycleDeps where
  relabel : RelabelDeps
  client : ClientDeps
  /-- `serde_saphyr::from_str`. -/
  parseYaml : String → Except String (Config relabel.engine)
  /-- The `{:?}` form of a string. -/
  debugStr : String → String

/-! ## Loading -/

def isEnvNameStart (c : Char) : Bool := c.isAlpha || c = '_'

def isEnvNameChar (c : Char) : Bool := c.isAlphanum || c = '_'

/-- The name in a `$(NAME)` reference at the start of the text, and what follows the reference. -/
def envReference : List Char → Option (List Char × List Char)
  | '$' :: '(' :: c :: rest =>
      if isEnvNameStart c then
        match rest.dropWhile isEnvNameChar with
        | ')' :: after => some (c :: rest.takeWhile isEnvNameChar, after)
        | _ => none
      else none
  | _ => none

/-- Expand the references in the next `n` characters at most. -/
def expandFrom (world : World) : Nat → List Char → List Char
  | 0, cs => cs
  | _, [] => []
  | n + 1, c :: cs =>
      match envReference (c :: cs) with
      | some (name, after) =>
          ((world.env (String.ofList name)).getD ("$(" ++ String.ofList name ++ ")")).toList ++
            expandFrom world n after
      | none => c :: expandFrom world n cs

/-- Expand `$(VAR)` references; those to unset variables are left untouched. -/
def expandEnvVars (world : World) (raw : String) : String :=
  String.ofList (expandFrom world raw.toList.length raw.toList)

/-- `config::load`. -/
def load (deps : LifecycleDeps) (path : String) (world : World) :
    Except String (Config deps.relabel.engine) := do
  let raw ← withContext ("reading config file " ++ path) (world.readToString path)
  let config ← withContext ("parsing config file " ++ path)
    (deps.parseYaml (expandEnvVars world raw))
  config.validate.mapError (ConfigError.text deps.debugStr)
  .ok config

/-- `load_config`: a configuration that has somewhere to write to. -/
def loadConfig (deps : LifecycleDeps) (path : String) (world : World) :
    Except String (Config deps.relabel.engine) := do
  let config ← withContext ("loading config " ++ path) (load deps path world)
  if config.remoteWrite.isEmpty then
    throw "no remote_write endpoints configured; scraped data would be discarded"
  .ok config

/-! ## The pipeline -/

/-- A running pipeline: its configuration, the connections of its senders, and how many pipelines the
process started before it. -/
structure Pipeline (deps : LifecycleDeps) where
  config : Config deps.relabel.engine
  connections : List (Connection deps.client.Cert)
  generation : Nat

/-- The fallible part of `remote_write::spawn`: one endpoint after the other. -/
def startSenders (deps : LifecycleDeps) (world : World)
    (configs : List (RemoteWriteConfig deps.relabel.engine)) :
    Except String (List (Connection deps.client.Cert)) :=
  configs.mapM (Connection.new deps.client deps.relabel.toLowercase world)

/-- Why `wait_for_stop` returns. -/
inductive StopReason (deps : LifecycleDeps) where
  | shutdown
  /-- The new configuration is already there. -/
  | reload (config : Config deps.relabel.engine)

inductive Agent (deps : LifecycleDeps) where
  /-- In `wait_for_stop`, or about to be. -/
  | running (pipeline : Pipeline deps)
  /-- It was told to stop the pipeline, and waits for its tasks to end. -/
  | stopping (pipeline : Pipeline deps) (reason : StopReason deps)
  /-- `run` has returned. -/
  | exited (result : Except String Unit)

/-- One turn of the loop in `run`, up to `wait_for_stop`. -/
def bringUp (deps : LifecycleDeps) (world : World) (config : Config deps.relabel.engine)
    (generation : Nat) : Agent deps :=
  match withContext "starting remote-write senders" (startSenders deps world config.remoteWrite) with
  | .ok connections => .running ⟨config, connections, generation⟩
  | .error err => .exited (.error err)

/-- `run` up to the first `wait_for_stop`. -/
def launch (deps : LifecycleDeps) (path : String) (world : World) : Agent deps :=
  match loadConfig deps path world with
  | .ok config => bringUp deps world config 0
  | .error err => .exited (.error err)

/-! ## Requests -/

/-- The status and body that answer a reload request over HTTP. -/
def reloadResponse : Except String Unit → String × String
  | .ok () => ("200 OK", "Configuration reloaded.\n")
  | .error message => ("500 Internal Server Error", message ++ "\n")

/-- What the main loop takes up. -/
inductive AgentEvent where
  /-- SIGHUP. -/
  | hangup (world : World)
  /-- A reload request over HTTP. -/
  | reload (world : World)
  /-- SIGTERM, SIGINT or a quit request over HTTP. -/
  | stop
  /-- The last task of a pipeline that is torn down has ended. -/
  | ended (world : World)

/-- A reload of a running pipeline: the files it loaded, its answer if it was asked for over HTTP, the
files when the old pipeline had ended, if it came to that, and the process after it. -/
structure Reload (deps : LifecycleDeps) where
  before : Pipeline deps
  atLoad : World
  response : Option (String × String)
  atStart : Option World := none
  after : Agent deps

/-- A reload in `wait_for_stop`. -/
def reloadPipeline (deps : LifecycleDeps) (path : String) (pipeline : Pipeline deps) (http : Bool)
    (atLoad : World) : Reload deps :=
  match loadConfig deps path atLoad with
  | .ok config => {
      before := pipeline
      atLoad := atLoad
      response := if http then some (reloadResponse (.ok ())) else none
      after := .stopping pipeline (.reload config) }
  | .error err => {
      before := pipeline
      atLoad := atLoad
      response := if http then some (reloadResponse (.error err)) else none
      after := .running pipeline }

/-- The process and the reloads it has taken up, oldest first. -/
structure AgentRun (deps : LifecycleDeps) where
  agent : Agent deps
  reloads : List (Reload deps) := []

namespace AgentRun

variable {deps : LifecycleDeps}

def reload (path : String) (http : Bool) (atLoad : World) (s : AgentRun deps) : AgentRun deps :=
  match s.agent with
  | .running pipeline =>
      let reload := reloadPipeline deps path pipeline http atLoad
      ⟨reload.after, s.reloads ++ [reload]⟩
  | _ => s

def stop (s : AgentRun deps) : AgentRun deps :=
  match s.agent with
  | .running pipeline => { s with agent := .stopping pipeline .shutdown }
  | _ => s

/-- The rest of a turn of the loop, and the start of the next one; the reload that asked for it is the
last one. -/
def ended (world : World) (s : AgentRun deps) : AgentRun deps :=
  match s.agent with
  | .stopping _ .shutdown => { s with agent := .exited (.ok ()) }
  | .stopping pipeline (.reload config) =>
      let next := bringUp deps world config (pipeline.generation + 1)
      { agent := next
        reloads := s.reloads.dropLast ++
          (s.reloads.getLast?.map fun r => { r with atStart := some world, after := next }).toList }
  | _ => s

def step (path : String) (s : AgentRun deps) : AgentEvent → AgentRun deps
  | .hangup world => s.reload path false world
  | .reload world => s.reload path true world
  | .stop => s.stop
  | .ended world => s.ended world

/-- The answers to reload requests over HTTP. -/
def responses (s : AgentRun deps) : List (String × String) := s.reloads.filterMap (·.response)

end AgentRun

/-- The process after some events. -/
def runAgent (deps : LifecycleDeps) (path : String) (world : World) (events : List AgentEvent) :
    AgentRun deps :=
  Transition.run (AgentRun.step path) { agent := launch deps path world } events

end PromScrape
