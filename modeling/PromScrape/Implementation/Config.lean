import PromScrape.Implementation.Relabel
import PromScrape.Implementation.Duration

set_option autoImplicit false

/-! # The configuration and its validation (`src/config.rs`)

The sections with the fields that validation or another function here reads, the effective settings
of a job, and what `Config::validate` checks and says, section by section. Defaults are those of the
source.

Messages quote strings in Rust's `{:?}` form; `ConfigError.text` takes that form as a parameter. -/

namespace PromScrape

open Regex (Engine)

/-! ## Maps and sizes -/

/-- A `BTreeMap<String, String>`: its entries in key order. -/
structure StringMap where
  entries : List (String × String) := []
  sorted : entries.Pairwise (fun a b => a.1 < b.1) := by decide
deriving DecidableEq, Repr

/-- A `HashMap<String, Vec<String>>`: its entries in iteration order, which may be any. -/
structure ParamMap where
  entries : List (String × List String) := []
  nodup : (entries.map Prod.fst).Nodup := by decide
deriving Repr

def StringMap.empty : StringMap := {}

def ParamMap.empty : ParamMap := {}

/-- A Prometheus-style byte size. -/
structure PromSize where
  asBytes : UInt64
deriving DecidableEq, Repr

/-- Default cap on a decoded scrape body. -/
def defaultBodySizeLimit : UInt64 := 128 * 1024 * 1024

/-! ## Sections -/

inductive ScrapeProtocol where
  | prometheusProto
  | prometheusText0_0_4
  | prometheusText1_0_0
  | openMetricsText0_0_1
  | openMetricsText1_0_0
deriving DecidableEq, Repr

def ScrapeProtocol.debug : ScrapeProtocol → String
  | .prometheusProto => "PrometheusProto"
  | .prometheusText0_0_4 => "PrometheusText0_0_4"
  | .prometheusText1_0_0 => "PrometheusText1_0_0"
  | .openMetricsText0_0_1 => "OpenMetricsText0_0_1"
  | .openMetricsText1_0_0 => "OpenMetricsText1_0_0"

/-- Whether this agent can parse the format. -/
def ScrapeProtocol.isSupported : ScrapeProtocol → Bool
  | .prometheusProto | .prometheusText0_0_4 => true
  | _ => false

/-- The media type offered in the `Accept` header. -/
def ScrapeProtocol.mediaType : ScrapeProtocol → String
  | .prometheusProto =>
      "application/vnd.google.protobuf;proto=io.prometheus.client.MetricFamily;encoding=delimited"
  | .prometheusText0_0_4 => "text/plain;version=0.0.4"
  | .prometheusText1_0_0 => "text/plain;version=1.0.0"
  | .openMetricsText0_0_1 => "application/openmetrics-text;version=0.0.1"
  | .openMetricsText1_0_0 => "application/openmetrics-text;version=1.0.0"

structure GlobalConfig where
  scrapeInterval : PromDuration := .fromSecs 60
  scrapeTimeout : PromDuration := .fromSecs 10
  externalLabels : StringMap := .empty
  scrapeProtocols : Option (List ScrapeProtocol) := none
  scrapeNativeHistograms : Bool := false
  alwaysScrapeClassicHistograms : Bool := false
deriving Repr

structure BasicAuth where
  username : String := ""
  password : Option String := none
  passwordFile : Option String := none
deriving DecidableEq, Repr

structure Authorization where
  type : String := "Bearer"
  credentials : Option String := none
  credentialsFile : Option String := none
deriving DecidableEq, Repr

inductive KubernetesRole where
  | pod
  | endpointslice
  | endpoints
  | service
  | node
  | ingress
deriving DecidableEq, Repr

def KubernetesRole.debug : KubernetesRole → String
  | .pod => "Pod"
  | .endpointslice => "Endpointslice"
  | .endpoints => "Endpoints"
  | .service => "Service"
  | .node => "Node"
  | .ingress => "Ingress"

structure KubernetesSdConfig where
  role : KubernetesRole := .pod
deriving DecidableEq, Repr

structure StaticConfig where
  targets : List String := []
  labels : StringMap := .empty
deriving Repr

structure FileSdConfig where
  files : List String := []
  refreshInterval : PromDuration := .fromSecs (5 * 60)
deriving DecidableEq, Repr

structure TlsConfig where
  insecureSkipVerify : Bool := false
  caFile : Option String := none
  certFile : Option String := none
  keyFile : Option String := none
deriving DecidableEq, Repr

structure ScrapeConfig (E : Engine) where
  jobName : String := ""
  scrapeInterval : Option PromDuration := none
  scrapeTimeout : Option PromDuration := none
  metricsPath : String := "/metrics"
  scheme : String := "http"
  params : ParamMap := .empty
  honorLabels : Bool := false
  honorTimestamps : Bool := true
  basicAuth : Option BasicAuth := none
  authorization : Option Authorization := none
  bearerToken : Option String := none
  bearerTokenFile : Option String := none
  tlsConfig : TlsConfig := {}
  sampleLimit : UInt64 := 0
  bodySizeLimit : PromSize := ⟨defaultBodySizeLimit⟩
  scrapeProtocols : Option (List ScrapeProtocol) := none
  scrapeNativeHistograms : Option Bool := none
  alwaysScrapeClassicHistograms : Option Bool := none
  nativeHistogramBucketLimit : UInt32 := 0
  staticConfigs : List StaticConfig := []
  fileSdConfigs : List FileSdConfig := []
  kubernetesSdConfigs : List KubernetesSdConfig := []
  relabelConfigs : List (RelabelConfig E) := []
  metricRelabelConfigs : List (RelabelConfig E) := []

structure QueueConfig where
  capacity : Nat := 10000
  maxShards : Nat := 50
  minShards : Nat := 1
  maxSamplesPerSend : Nat := 2000
  batchSendDeadline : PromDuration := .fromSecs 5
  minBackoff : PromDuration := ⟨.fromMillis 30⟩
  maxBackoff : PromDuration := .fromSecs 5
deriving DecidableEq, Repr

inductive ProtobufMessage where
  | writeRequestV1
  | writeRequestV2
deriving DecidableEq, Repr

structure RemoteWriteConfig (E : Engine) where
  url : String := ""
  name : Option String := none
  remoteTimeout : PromDuration := .fromSecs 30
  /-- In iteration order, which may be any. -/
  headers : List (String × String) := []
  basicAuth : Option BasicAuth := none
  authorization : Option Authorization := none
  bearerToken : Option String := none
  tlsConfig : TlsConfig := {}
  writeRelabelConfigs : List (RelabelConfig E) := []
  queueConfig : QueueConfig := {}
  protobufMessage : ProtobufMessage := .writeRequestV1
  /-- Whether native histogram samples are sent. -/
  sendNativeHistograms : Bool := false

structure Config (E : Engine) where
  global : GlobalConfig := {}
  scrapeConfigs : List (ScrapeConfig E) := []
  remoteWrite : List (RemoteWriteConfig E) := []
  /-- Server-only sections, present or not. -/
  ruleFiles : Option Unit := none
  alerting : Option Unit := none
  remoteRead : Option Unit := none

/-! ## Effective settings of a job -/

namespace ScrapeConfig

variable {E : Engine}

/-- Effective scrape interval, falling back to the global one. -/
def interval (c : ScrapeConfig E) (global : GlobalConfig) : Duration :=
  (c.scrapeInterval.getD global.scrapeInterval).asDuration

def timeout (c : ScrapeConfig E) (global : GlobalConfig) : Duration :=
  (c.scrapeTimeout.getD global.scrapeTimeout).asDuration

def nativeHistograms (c : ScrapeConfig E) (global : GlobalConfig) : Bool :=
  c.scrapeNativeHistograms.getD global.scrapeNativeHistograms

def classicHistograms (c : ScrapeConfig E) (global : GlobalConfig) : Bool :=
  c.alwaysScrapeClassicHistograms.getD global.alwaysScrapeClassicHistograms

/-- Effective exposition formats, most preferred first. -/
def protocols (c : ScrapeConfig E) (global : GlobalConfig) : List ScrapeProtocol :=
  match c.scrapeProtocols.or global.scrapeProtocols with
  | some protocols => protocols
  | none =>
      if c.nativeHistograms global then [.prometheusProto, .prometheusText0_0_4]
      else [.prometheusText0_0_4]

end ScrapeConfig

/-! ## Errors -/

inductive ConfigError where
  | unsupportedSection (name : String)
  | inGlobal (err : String)
  | emptyJobName
  | badScheme (jobName scheme : String)
  | inScrapeConfig (jobName err : String)
  | duplicateJobName (jobName : String)
  | inRemoteWrite (url err : String)
deriving DecidableEq, Repr

/-- The message, given the `{:?}` form of a string. -/
def ConfigError.text (debug : String → String) : ConfigError → String
  | .unsupportedSection name => "field " ++ name ++ " is not supported: this is a scraping agent " ++
      "(like Prometheus agent mode); remove the section from the config"
  | .inGlobal err => "global: " ++ err
  | .emptyJobName => "job_name must not be empty"
  | .badScheme jobName scheme => "scrape config " ++ debug jobName ++
      ": scheme must be \"http\" or \"https\", got " ++ debug scheme
  | .inScrapeConfig jobName err => "scrape config " ++ debug jobName ++ ": " ++ err
  | .duplicateJobName jobName => "duplicate job_name " ++ debug jobName ++ " in scrape_configs"
  | .inRemoteWrite url err => "remote_write " ++ debug url ++ ": " ++ err

/-! ## Validation -/

/-- The loop over the protocols, with those before the current one. -/
def validateProtocolsFrom (before : List ScrapeProtocol) : List ScrapeProtocol → Except String Unit
  | [] => .ok ()
  | protocol :: rest =>
      if !protocol.isSupported then
        .error ("scrape_protocols: " ++ protocol.debug ++
          " is not supported (supported: PrometheusProto, PrometheusText0.0.4)")
      else if before.contains protocol then
        .error ("scrape_protocols: duplicate " ++ protocol.debug)
      else validateProtocolsFrom (before ++ [protocol]) rest

def validateScrapeProtocols (protocols : List ScrapeProtocol) : Except String Unit :=
  if protocols.isEmpty then .error "scrape_protocols must not be empty"
  else validateProtocolsFrom [] protocols

def GlobalConfig.validate (c : GlobalConfig) : Except ConfigError Unit :=
  match c.scrapeProtocols with
  | some protocols => (validateScrapeProtocols protocols).mapError .inGlobal
  | none => .ok ()

def validateBasicAuth (basicAuth : Option BasicAuth) : Except String Unit :=
  match basicAuth with
  | some auth =>
      if auth.password.isSome && auth.passwordFile.isSome then
        .error "basic_auth: password and password_file are mutually exclusive"
      else .ok ()
  | none => .ok ()

def validateAuthorization (authorization : Option Authorization) : Except String Unit :=
  match authorization with
  | some auth =>
      if auth.credentials.isSome && auth.credentialsFile.isSome then
        .error "authorization: credentials and credentials_file are mutually exclusive"
      else .ok ()
  | none => .ok ()

def validateExclusiveAuth (basicAuth : Option BasicAuth) (authorization : Option Authorization)
    (bearerToken : Option String) : Except String Unit :=
  let setCount := basicAuth.isSome.toNat + authorization.isSome.toNat + bearerToken.isSome.toNat
  if setCount > 1 then
    .error "at most one of basic_auth, authorization, or bearer_token may be set"
  else .ok ()

def KubernetesSdConfig.validate (c : KubernetesSdConfig) : Except String Unit :=
  match c.role with
  | .pod | .endpointslice => .ok ()
  | unsupported => .error ("kubernetes_sd_configs role " ++ unsupported.debug ++
      " is not supported yet (supported: pod, endpointslice)")

/-- `ScrapeConfig::validate`. -/
def ScrapeConfig.validate {E : Engine} (c : ScrapeConfig E) : Except ConfigError Unit := do
  if c.jobName.isEmpty then throw .emptyJobName
  match c.scrapeProtocols with
  | some protocols => (validateScrapeProtocols protocols).mapError (.inScrapeConfig c.jobName)
  | none => pure ()
  if c.scheme ≠ "http" ∧ c.scheme ≠ "https" then throw (.badScheme c.jobName c.scheme)
  (validateBasicAuth c.basicAuth).mapError (.inScrapeConfig c.jobName)
  (validateAuthorization c.authorization).mapError (.inScrapeConfig c.jobName)
  (validateExclusiveAuth c.basicAuth c.authorization c.bearerToken).mapError
    (.inScrapeConfig c.jobName)
  c.kubernetesSdConfigs.forM (fun sd => sd.validate.mapError (.inScrapeConfig c.jobName))

/-- `QueueConfig::validate`. -/
def QueueConfig.validate (c : QueueConfig) : Except String Unit :=
  if c.capacity = 0 then .error "queue_config.capacity must be non-zero"
  else if c.maxSamplesPerSend = 0 then
    .error "queue_config.max_samples_per_send must be non-zero"
  else if c.minShards = 0 then .error "queue_config.min_shards must be non-zero"
  else if c.maxShards = 0 then .error "queue_config.max_shards must be non-zero"
  else if c.maxShards < c.minShards then
    .error "queue_config.max_shards must be >= min_shards"
  else .ok ()

/-- Minimal http(s) URL validation: the scheme prefix and a non-empty host. -/
def validateUrl (url : String) : Except String Unit :=
  match (stripPrefix url "http://").or (stripPrefix url "https://") with
  | none => .error "url must start with http:// or https://"
  | some rest =>
      let host := rest.toList.takeWhile (fun c => !(c = '/' || c = '?' || c = '#'))
      if host.isEmpty then .error "url is missing a host" else .ok ()

/-- `RemoteWriteConfig::validate`. -/
def RemoteWriteConfig.validate {E : Engine} (c : RemoteWriteConfig E) :
    Except ConfigError Unit := do
  (validateUrl c.url).mapError (.inRemoteWrite c.url)
  (validateBasicAuth c.basicAuth).mapError (.inRemoteWrite c.url)
  (validateAuthorization c.authorization).mapError (.inRemoteWrite c.url)
  (validateExclusiveAuth c.basicAuth c.authorization c.bearerToken).mapError (.inRemoteWrite c.url)
  c.queueConfig.validate.mapError (.inRemoteWrite c.url)

/-- The loop over the scrape configs, with the job names seen. -/
def validateScrapeConfigs {E : Engine} (seenJobNames : List String) :
    List (ScrapeConfig E) → Except ConfigError Unit
  | [] => .ok ()
  | c :: rest => do
      c.validate
      if seenJobNames.contains c.jobName then throw (.duplicateJobName c.jobName)
      validateScrapeConfigs (c.jobName :: seenJobNames) rest

/-- `Config::validate`. -/
def Config.validate {E : Engine} (c : Config E) : Except ConfigError Unit := do
  [("rule_files", c.ruleFiles), ("alerting", c.alerting), ("remote_read", c.remoteRead)].forM
    (fun (name, value) => if value.isSome then throw (.unsupportedSection name) else pure ())
  c.global.validate
  validateScrapeConfigs [] c.scrapeConfigs
  c.remoteWrite.forM RemoteWriteConfig.validate

/-- Every relabel rule list of a configuration. -/
def Config.relabelLists {E : Engine} (c : Config E) : List (List (RelabelConfig E)) :=
  c.scrapeConfigs.flatMap (fun s => [s.relabelConfigs, s.metricRelabelConfigs]) ++
    c.remoteWrite.map (fun r => r.writeRelabelConfigs)

end PromScrape
