import PromScrape.Library.Utf8
import PromScrape.Implementation.Size
import PromScrape.Implementation.Telemetry

set_option autoImplicit false

/-! # The HTTP endpoint (`handle_connection`, `route` and `lifecycle_request` in `src/web.rs`)

A connection reads until it has seen a blank line, more than 8192 bytes or the end of the stream; the
first line of what it read decides the answer. A request is a list of bytes, and the bytes that one
`read` yields are an input. What the lifecycle requests do to the process is the subject of the next
file. -/

namespace PromScrape

open Utf8 (utf8Bytes ofUtf8Bytes?)

inductive LifecycleCommand where
  | reload
  | quit
deriving DecidableEq, Repr

/-! ## Reading a request -/

/-- `request.windows(4).any(|w| w == b"\r\n\r\n")`. -/
def hasBlankLine : List UInt8 → Bool
  | 13 :: 10 :: 13 :: 10 :: _ => true
  | _ :: rest => hasBlankLine rest
  | [] => false

/-- A connection while it reads, and whether it goes on to answer. -/
structure RequestRead where
  request : List UInt8 := []
  finished : Bool := false
deriving DecidableEq, Repr

/-- One turn of the read loop; nothing is read at the end of the stream. -/
def RequestRead.read (r : RequestRead) (chunk : List UInt8) : RequestRead :=
  if r.finished then r
  else if chunk.isEmpty then { r with finished := true }
  else
    let request := r.request ++ chunk
    { request := request, finished := hasBlankLine request || 8192 < request.length }

/-- `text.lines().next()`: up to the first line feed, and without a carriage return in front of it. -/
def nextLine (cs : List Char) : List Char :=
  let line := cs.takeWhile (· != '\n')
  if line.length < cs.length ∧ line.getLast? = some '\r' then line.dropLast else line

/-- `split_whitespace`. -/
def splitWhitespace (cs : List Char) : List (List Char) :=
  (cs.splitOnP PromSize.isWhitespace).filter (!·.isEmpty)

/-- The method and the path that a request line names. -/
def requestTarget (line : List Char) : String × String :=
  let parts := splitWhitespace line
  (String.ofList (parts.getD 0 []), String.ofList ((parts.getD 1 []).takeWhile (· != '?')))

/-- The method and the path that a request asks for. -/
def parseRequest (request : List UInt8) : String × String :=
  requestTarget (match ofUtf8Bytes? request with
    | some text => nextLine text.toList
    | none => [])

/-! ## Answering it -/

/-- What `route` sees of the process. -/
structure WebState where
  ready : Bool
  metrics : Metrics
  process : Option ProcessStats
  lifecycle : Bool

/-- An answer, or what has to be asked of the main loop first and what to say if it agrees. -/
inductive Routed where
  | answer (status body : String)
  | ask (command : LifecycleCommand) (success : String)
deriving DecidableEq, Repr

/-- The part of `lifecycle_request` before its first wait. -/
def lifecycleRequest (lifecycle : Bool) (command : LifecycleCommand) (success : String) : Routed :=
  if lifecycle then .ask command success
  else .answer "403 Forbidden" "Lifecycle API is not enabled. Pass --web.enable-lifecycle.\n"

def isGet (method : String) : Bool := method == "GET" || method == "HEAD"

def isPost (method : String) : Bool := method == "POST" || method == "PUT"

def route (state : WebState) (method path : String) : Routed :=
  if isGet method && path == "/metrics" then
    .answer "200 OK" (state.metrics.render state.process)
  else if isGet method && path == "/-/healthy" then .answer "200 OK" "Healthy.\n"
  else if isGet method && path == "/-/ready" then
    if state.ready then .answer "200 OK" "Ready.\n"
    else .answer "503 Service Unavailable" "Not ready.\n"
  else if isPost method && path == "/-/reload" then
    lifecycleRequest state.lifecycle .reload "Configuration reloaded.\n"
  else if isPost method && path == "/-/quit" then
    lifecycleRequest state.lifecycle .quit "Requesting termination.\n"
  else if isGet method && (path == "/-/reload" || path == "/-/quit") then
    .answer "405 Method Not Allowed" "Only POST or PUT requests allowed.\n"
  else
    .answer "404 Not Found"
      "404 - this agent serves no web UI; probe endpoints are /-/healthy and /-/ready\n"

/-- What goes back over the connection. -/
def httpResponse (status body : String) : String :=
  "HTTP/1.1 " ++ status ++ "\r\ncontent-type: text/plain; charset=utf-8\r\ncontent-length: " ++
    toString (utf8Bytes body).length ++ "\r\nconnection: close\r\n\r\n" ++ body

end PromScrape
