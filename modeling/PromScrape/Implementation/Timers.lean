import PromScrape.Implementation.Lifecycle
import PromScrape.Implementation.Targets

set_option autoImplicit false

/-! # Timers

The points where a task turns a configured duration into a timer: `scrape_loop` in `src/scrape.rs`,
`self_monitor_loop` in `src/main.rs`, `Endpoint::run` in `src/remote_write.rs`, and the `file_sd`
task of `src/sd.rs`; and which of these tasks `run` starts for a configuration.
`tokio::time::interval` panics on a zero period. -/

namespace PromScrape

open Utf8 (utf8Bytes)
open Regex (Engine)

/-- What makes a task panic on its timers. -/
inductive TimeFault where
  /-- A remainder by zero. -/
  | divisionByZero
  /-- `tokio::time::interval` with a zero period. -/
  | zeroPeriod
deriving DecidableEq, Repr

/-- `tokio::time::interval`: a ticker with this period. -/
def tokioInterval (period : Duration) : Except TimeFault Duration :=
  if period = .zero then .error .zeroPeriod else .ok period

def hashBytes (data : List UInt8) : UInt64 := (FxHasher.default.write data).finish

/-- `u64::try_from(d.as_nanos()).unwrap_or(u64::MAX)`. -/
def nanosU64 (d : Duration) : UInt64 :=
  if d.nanos < 2 ^ 64 then UInt64.ofNat d.nanos else 0xffffffffffffffff

variable {E : Engine}

/-- Deterministic per-target offset that spreads scrapes over the interval. -/
def scrapeOffset (target : Target E) : Except TimeFault Duration :=
  if nanosU64 target.interval = 0 then .error .divisionByZero
  else .ok ⟨(hashBytes (utf8Bytes target.url) % nanosU64 target.interval).toNat⟩

/-- The offset that `scrape_loop` sleeps for and the ticker it then makes. -/
def startScrapeLoop (target : Target E) : Except TimeFault (Duration × Duration) := do
  let offset ← scrapeOffset target
  let ticker ← tokioInterval target.interval
  .ok (offset, ticker)

/-- The ticker of `self_monitor_loop`. -/
def startSelfMonitor (global : GlobalConfig) : Except TimeFault Duration :=
  tokioInterval global.scrapeInterval.asDuration

/-- The deadline ticker of `Endpoint::run`. -/
def startEndpoint (config : RemoteWriteConfig E) : Except TimeFault Duration :=
  tokioInterval config.queueConfig.batchSendDeadline.asDuration

/-- The shortest refresh interval of the job's `file_sd` configs. -/
def fileSdRefresh (configs : List FileSdConfig) : Duration :=
  match (configs.map fun c => c.refreshInterval.asDuration.nanos).min? with
  | some nanos => ⟨nanos⟩
  | none => .fromSecs (5 * 60)

/-- The ticker of the `file_sd` task, which there is one of when the job has such configs. -/
def startFileSd (job : ScrapeConfig E) : Except TimeFault (Option Duration) :=
  if job.fileSdConfigs.isEmpty then .ok none
  else (tokioInterval (fileSdRefresh job.fileSdConfigs)).map some

/-! ## The tasks of a configuration -/

/-- What `run_job` does before it starts discovery; if it fails, the job is disabled. -/
def connectJob (deps : ClientDeps) (world : World) (global : GlobalConfig) (job : ScrapeConfig E) :
    Except String (ClientBuilder deps.Cert × Credentials) := do
  let client ← buildClient deps world (job.timeout global) job.tlsConfig
  let credentials ← Credentials.resolve world job.basicAuth job.authorization job.bearerToken
    job.bearerTokenFile
  .ok (client, credentials)

/-- The tasks with timers: the senders of these endpoints, self-monitoring, and the discovery and the
scrape loops of these jobs. -/
structure StartedTasks (E : Engine) where
  senders : List (RemoteWriteConfig E) := []
  monitor : Bool := false
  jobs : List (ScrapeConfig E) := []

/-- What `run` starts for a parsed configuration, with the files when it constructs the endpoints and
when each job reads its own. `load_config` may refuse it. `remote_write::spawn` starts one sender after
the other, and where an endpoint cannot be constructed, it is given up after those in front of it. -/
def startTasks (deps : LifecycleDeps) (atStart : World)
    (atJob : ScrapeConfig deps.relabel.engine → World) (config : Config deps.relabel.engine) :
    StartedTasks deps.relabel.engine :=
  if config.validate.isOk && !config.remoteWrite.isEmpty then
    match startSenders deps atStart config.remoteWrite with
    | .ok _ => {
        senders := config.remoteWrite
        monitor := true
        jobs := config.scrapeConfigs.filter fun job =>
          (connectJob deps.client (atJob job) config.global job).isOk }
    | .error _ => {
        senders := config.remoteWrite.takeWhile fun c =>
          (Connection.new deps.client deps.relabel.toLowercase atStart c).isOk }
  else {}

end PromScrape
