import PromScrape.Library.Utf8
import PromScrape.Implementation.Config

set_option autoImplicit false

/-! # HTTP clients and credentials (`src/auth.rs`, `Endpoint::new` in `src/remote_write.rs`)

What has to succeed before an endpoint can be used: its TLS files must be readable and its secrets
resolvable. The file system is an input; PEM parsing and the construction of the client from its
settings belong to `reqwest`. Errors are the texts of the whole chain, as `{:#}` prints them. -/

namespace PromScrape

open Utf8 (ofUtf8Bytes?)
open Regex (Engine)

/-- What a step sees of its surroundings: files by path, or why they cannot be read, and environment
variables. -/
structure World where
  read : String → Except String (List UInt8)
  env : String → Option String

/-- `std::fs::read_to_string`. -/
def World.readToString (world : World) (path : String) : Except String String := do
  let bytes ← world.read path
  match ofUtf8Bytes? bytes with
  | some text => .ok text
  | none => .error "stream did not contain valid UTF-8"

/-- `with_context`: the context in front of the error. -/
def withContext {α : Type} (context : String) (result : Except String α) : Except String α :=
  result.mapError fun err => context ++ ": " ++ err

/-! ## Clients -/

/-- The settings of a client. -/
structure ClientBuilder (Cert : Type) where
  timeout : Duration
  userAgent : String := "prometheus-scrape-rs/0.1.0"
  gzip : Bool := true
  acceptInvalidCerts : Bool := false
  rootCertificates : List Cert := []

/-- What building a client calls outside the repository. -/
structure ClientDeps where
  Cert : Type
  /-- `Certificate::from_pem_bundle`. -/
  pemBundle : List UInt8 → Except String (List Cert)
  /-- Why `ClientBuilder::build` fails, if it does. -/
  build : ClientBuilder Cert → Except String Unit

/-- The certificates of the CA file, if there is one. -/
def loadRoots (deps : ClientDeps) (world : World) : Option String → Except String (List deps.Cert)
  | none => .ok []
  | some path => do
      let pem ← withContext ("reading ca_file " ++ path) (world.read path)
      withContext ("parsing ca_file " ++ path) (deps.pemBundle pem)

/-- Build an HTTP client honoring the given TLS settings. -/
def buildClient (deps : ClientDeps) (world : World) (timeout : Duration) (tls : TlsConfig) :
    Except String (ClientBuilder deps.Cert) := do
  let roots ← loadRoots deps world tls.caFile
  if tls.certFile.isSome || tls.keyFile.isSome then
    .error "tls_config cert_file/key_file (client certificates) are not supported yet"
  else
    let builder : ClientBuilder deps.Cert := {
      timeout := timeout
      acceptInvalidCerts := tls.insecureSkipVerify
      rootCertificates := roots }
    (withContext "building HTTP client" (deps.build builder)).map fun () => builder

/-! ## Credentials -/

/-- Pre-resolved request credentials. -/
inductive Credentials where
  | none
  | basic (username password : String)
  /-- Pre-formatted `Authorization` header value. -/
  | header (value : String)
deriving DecidableEq, Repr

/-- `trim_end_matches(['\n', '\r'])`. -/
def trimNewlines (s : String) : String :=
  String.ofList (s.toList.reverse.dropWhile fun c => c = '\n' || c = '\r').reverse

def readSecretFile (world : World) (path : String) : Except String String :=
  (withContext ("reading credentials file " ++ path) (world.readToString path)).map trimNewlines

/-- A secret that is given inline, in a file, or not at all. -/
def resolveSecret (world : World) (exclusive : String) (inlined file : Option String) :
    Except String String :=
  match inlined, file with
  | some secret, none => .ok secret
  | none, some path => readSecretFile world path
  | none, none => .ok ""
  | some _, some _ => .error exclusive

def Credentials.resolve (world : World) (basicAuth : Option BasicAuth)
    (authorization : Option Authorization) (bearerToken bearerTokenFile : Option String) :
    Except String Credentials :=
  match basicAuth, authorization, bearerToken, bearerTokenFile with
  | .some auth, _, _, _ =>
      (resolveSecret world "basic_auth: password and password_file are mutually exclusive"
        auth.password auth.passwordFile).map (.basic auth.username)
  | .none, .some auth, _, _ =>
      (resolveSecret world
        "authorization: credentials and credentials_file are mutually exclusive"
        auth.credentials auth.credentialsFile).map
          fun credentials => .header (auth.type ++ " " ++ credentials)
  | .none, .none, .some token, _ => .ok (.header ("Bearer " ++ token))
  | .none, .none, .none, .some path =>
      (readSecretFile world path).map fun token => .header ("Bearer " ++ token)
  | .none, .none, .none, .none => .ok .none

/-! ## Connections -/

/-- Reserved headers must not be overridden. -/
def reservedHeaders : List String :=
  ["content-encoding", "content-type", "x-prometheus-remote-write-version"]

/-- The part of an `Endpoint` that sending a request needs; the settings of its loop are in
`Endpoint`. -/
structure Connection (Cert : Type) where
  name : String
  url : String
  protocol : ProtobufMessage
  client : ClientBuilder Cert
  credentials : Credentials
  extraHeaders : List (String × String)
  minBackoff : Duration
  maxBackoff : Duration

/-- The steps of `Endpoint::new` that can fail, and what they make. -/
def Connection.new {E : Engine} (deps : ClientDeps) (toLowercase : String → String) (world : World)
    (config : RemoteWriteConfig E) : Except String (Connection deps.Cert) := do
  let name := config.name.getD config.url
  let client ← withContext ("remote_write " ++ name ++ ": building client")
    (buildClient deps world config.remoteTimeout.asDuration config.tlsConfig)
  let credentials ← withContext ("remote_write " ++ name ++ ": resolving credentials")
    (Credentials.resolve world config.basicAuth config.authorization config.bearerToken none)
  .ok {
    name := name
    url := config.url
    protocol := config.protobufMessage
    client := client
    credentials := credentials
    extraHeaders := config.headers.filter fun header =>
      !reservedHeaders.contains (toLowercase header.1)
    minBackoff := config.queueConfig.minBackoff.asDuration
    maxBackoff := config.queueConfig.maxBackoff.asDuration }

end PromScrape
