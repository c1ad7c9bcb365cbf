import PromScrape.Library.Numerals
import PromScrape.Library.Retry
import PromScrape.Library.Transition
import PromScrape.Implementation.Auth
import PromScrape.Implementation.EncodeV2
import PromScrape.Implementation.Flush
import PromScrape.Implementation.RemoteWrite
import PromScrape.Implementation.Size
import PromScrape.Implementation.Telemetry

set_option autoImplicit false

/-! # From a chunk to its acknowledgement (`Endpoint::flush`, `send_once` in `src/remote_write.rs`)

The sender loop of one endpoint together with what `flush` does with a chunk: relabel and encode it,
compress the bytes, and send them until an answer is final, pausing in between. While `flush` runs the
loop stands still, and only the queue goes on filling. The system is a step function over events, as
for the loop alone; what the receiver and the network answer is part of the event. Compression and the
text of a status belong to other crates. A panic ends the task, and with it the queue.

`outcomes`, `wire` and the attempts of a request are logs for the proofs; no step reads them. -/

namespace PromScrape

/-! ## Requests and answers -/

/-- What one request carries, compared against the counts a remote-write 2.0 receiver reports back. -/
structure Written where
  samples : Nat
  histograms : Nat
deriving DecidableEq, Repr

structure Request where
  url : String
  /-- In the order in which they are appended. -/
  headers : List (String × String)
  credentials : Credentials
  body : List UInt8
deriving DecidableEq, Repr

inductive Answer where
  /-- No response: the error of the client. -/
  | failed (err : String)
  /-- A response: its status, the two headers with counts where they are text, and its own text. -/
  | response (status : Nat) (samplesWritten histogramsWritten : Option String) (text : String)
deriving DecidableEq, Repr

inductive SendError where
  | recoverable (message : String)
  | unrecoverable (message : String)
deriving DecidableEq, Repr

/-- `is_success`. -/
def isSuccess (status : Nat) : Bool := 200 ≤ status && status < 300

/-- `is_server_error`. -/
def isServerError (status : Nat) : Bool := 500 ≤ status && status < 600

/-- `TOO_MANY_REQUESTS`. -/
def tooManyRequests : Nat := 429

/-- The content type and the version of the protocol. -/
def protocolHeaders : ProtobufMessage → String × String
  | .writeRequestV1 => ("application/x-protobuf", "0.1.0")
  | .writeRequestV2 => ("application/x-protobuf;proto=io.prometheus.write.v2.Request", "2.0.0")

/-- The request that `send_once` builds. -/
def Connection.request {Cert : Type} (connection : Connection Cert) (body : List UInt8) : Request :=
  let (contentType, version) := protocolHeaders connection.protocol
  { url := connection.url
    headers :=
      [("content-type", contentType), ("content-encoding", "snappy"),
        ("X-Prometheus-Remote-Write-Version", version)] ++ connection.extraHeaders
    credentials := connection.credentials
    body := body }

/-- `u64::from_str`: an optional plus and digits, in range. -/
def u64FromStr (s : String) : Option Nat := do
  let cs := match s.toList with
    | '+' :: cs => cs
    | cs => cs
  let n ← Numerals.digits? cs
  if n < 2 ^ 64 then some n else none

/-- The result of `send_once`; `statusText` is how a status prints. -/
def sendOnce (statusText : Nat → String) : Answer → Except SendError Unit
  | .failed err => .error (.recoverable err)
  | .response status _ _ text =>
      if isSuccess status then .ok ()
      else
        let message := "HTTP " ++ statusText status ++ ": " ++ PromSize.trim text
        if isServerError status || status == tooManyRequests then .error (.recoverable message)
        else .error (.unrecoverable message)

/-- A receiver that wrote fewer than were sent: of what, how many were sent, and how many written. -/
structure PartialWrite where
  kind : String
  sent : Nat
  written : Nat
deriving DecidableEq, Repr

/-- The warning about one of the headers with counts. -/
def partialWrite (kind : String) (sent : Nat) (header : Option String) : Option PartialWrite := do
  let written ← header.bind u64FromStr
  if written < sent then some ⟨kind, sent, written⟩ else none

/-- The warnings of `send_once` about partial writes. -/
def partialWrites (protocol : ProtobufMessage) (sent : Written) : Answer → List PartialWrite
  | .failed _ => []
  | .response status samplesWritten histogramsWritten _ =>
      if isSuccess status && protocol == .writeRequestV2 then
        (partialWrite "samples" sent.samples samplesWritten).toList ++
          (partialWrite "histograms" sent.histograms histogramsWritten).toList
      else []

/-! ## State -/

/-- What `flush` calls outside the repository. -/
structure DeliveryDeps where
  /-- `snap::raw::Encoder::compress_vec`. -/
  compress : List UInt8 → Except String (List UInt8)
  /-- How a status prints. -/
  statusText : Nat → String

/-- An endpoint: the settings of its loop, its connection and its rules. -/
structure EndpointTask (deps : RelabelDeps) where
  Cert : Type
  endpoint : Endpoint
  connection : Connection Cert
  writeRelabelConfigs : List (RelabelConfig deps.engine)

/-- An answer and, where it asked for another attempt, the pause before that. -/
structure Attempt where
  answer : Answer
  pause : Option Duration := none
deriving DecidableEq, Repr

/-- A chunk on its way: what is left of it after relabeling, its request, and the attempts so far. -/
structure Delivery where
  chunk : List TimeSeries
  batch : List TimeSeries
  written : Written
  request : Request
  attempts : List Attempt := []
deriving DecidableEq, Repr

/-- What became of a chunk. -/
inductive Outcome where
  /-- Relabeling left nothing of it. -/
  | empty
  | panicked
  | uncompressed (err : String)
  | delivered (delivery : Delivery)
  | dropped (delivery : Delivery) (message : String)
deriving DecidableEq, Repr

/-- Where `flush` is. -/
inductive FlushPhase where
  | idle
  /-- A request is out. -/
  | sending (delivery : Delivery) (backoff : Duration)
  /-- Waiting before the next attempt. -/
  | pausing (delivery : Delivery) (backoff : Duration)
  /-- The task is gone. -/
  | panicked
deriving DecidableEq, Repr

structure EndpointRun where
  sender : Sender
  scratch : V2Scratch := ⟨[], []⟩
  flush : FlushPhase := .idle
  metrics : Metrics := {}
  warnings : List PartialWrite := []
  outcomes : List (List TimeSeries × Outcome) := []
  /-- The requests that were answered, or failed, with their answers. -/
  wire : List (Request × Answer) := []

inductive EndpointEvent where
  /-- A batch is offered to the queue. -/
  | trySend (payload : List TimeSeries)
  | receive
  | drain
  | tick
  | finish (closed : Bool)
  /-- The answer to the request that is out. -/
  | answer (answer : Answer)
  /-- The pause is over. -/
  | wake
deriving DecidableEq, Repr

/-! ## Steps -/

/-- The chunk that a step of the loop handed to `flush`. -/
def Sender.handedOver (before after : Sender) : Option (List TimeSeries) :=
  (after.flushed.drop before.flushed.length).head?

def countWritten (batch : List TimeSeries) : Written :=
  let histogramCount := (batch.filter fun series => series.histogram.isSome).length
  { samples := batch.length - histogramCount, histograms := histogramCount }

/-- The bytes of a batch, in a buffer that was cleared; `none` is a panic. -/
def encodeBatch (protocol : ProtobufMessage) (batch : List TimeSeries) (scratch : V2Scratch) :
    Option (List UInt8 × V2Scratch) :=
  match protocol with
  | .writeRequestV1 => some (WriteRequest.encodeInto ⟨batch⟩ [], scratch)
  | .writeRequestV2 => encodeV2Into batch [] scratch

namespace EndpointRun

variable {deps : RelabelDeps}

def init (task : EndpointTask deps) : EndpointRun := { sender := { endpoint := task.endpoint } }

/-- A batch that the queue refuses is counted. -/
def trySend (r : EndpointRun) (payload : List TimeSeries) : EndpointRun :=
  let (sender, accepted) := r.sender.trySend payload
  { r with
    sender := sender
    metrics :=
      if accepted then r.metrics
      else { r.metrics with
        remoteWriteDroppedSeriesTotal :=
          r.metrics.remoteWriteDroppedSeriesTotal.add (UInt64.ofNat payload.length) } }

def settle (r : EndpointRun) (chunk : List TimeSeries) (outcome : Outcome) : EndpointRun :=
  { r with flush := .idle, outcomes := r.outcomes ++ [(chunk, outcome)] }

/-- Unwinding drops the receiver of the queue. -/
def panic (r : EndpointRun) (chunk : List TimeSeries) : EndpointRun :=
  { r with
    flush := .panicked
    sender := { r.sender with phase := .stopped }
    outcomes := r.outcomes ++ [(chunk, .panicked)] }

/-- `flush`, up to the first request. -/
def beginFlush (dd : DeliveryDeps) (task : EndpointTask deps) (r : EndpointRun)
    (chunk : List TimeSeries) : EndpointRun :=
  match flushBatch deps task.writeRelabelConfigs chunk with
  | .error _ => r.panic chunk
  | .ok [] => r.settle chunk .empty
  | .ok batch =>
      match encodeBatch task.connection.protocol batch r.scratch with
      | none => r.panic chunk
      | some (protoBuf, scratch) =>
          let r := { r with scratch := scratch }
          match dd.compress protoBuf with
          | .error err => r.settle chunk (.uncompressed err)
          | .ok compressed =>
              { r with
                flush := .sending
                  { chunk := chunk
                    batch := batch
                    written := countWritten batch
                    request := task.connection.request compressed }
                  task.connection.minBackoff }

/-- A step of the loop, which stands still while `flush` runs. -/
def loopStep (dd : DeliveryDeps) (task : EndpointTask deps) (r : EndpointRun)
    (step : Sender → Sender) : EndpointRun :=
  match r.flush with
  | .idle =>
      let sender := step r.sender
      match r.sender.handedOver sender with
      | some chunk => beginFlush dd task { r with sender := sender } chunk
      | none => { r with sender := sender }
  | _ => r

def answer (dd : DeliveryDeps) (task : EndpointTask deps) (r : EndpointRun) (answer : Answer) :
    EndpointRun :=
  match r.flush with
  | .sending delivery backoff =>
      let m := r.metrics
      let r := { r with
        wire := r.wire ++ [(delivery.request, answer)]
        warnings :=
          r.warnings ++ partialWrites task.connection.protocol delivery.written answer }
      match sendOnce dd.statusText answer with
      | .ok () =>
          let delivery := { delivery with attempts := delivery.attempts ++ [⟨answer, none⟩] }
          { r.settle delivery.chunk (.delivered delivery) with
            metrics := { m with
              remoteWriteBatchesTotal := m.remoteWriteBatchesTotal.add 1
              remoteWriteSentBytesTotal :=
                m.remoteWriteSentBytesTotal.add (UInt64.ofNat delivery.request.body.length) } }
      | .error (.unrecoverable message) =>
          let delivery := { delivery with attempts := delivery.attempts ++ [⟨answer, none⟩] }
          { r.settle delivery.chunk (.dropped delivery message) with
            metrics := { m with
              remoteWriteFailedBatchesTotal := m.remoteWriteFailedBatchesTotal.add 1 } }
      | .error (.recoverable _) =>
          { r with
            flush := .pausing
              { delivery with attempts := delivery.attempts ++ [⟨answer, some backoff⟩] } backoff
            metrics := { m with
              remoteWriteRetriesTotal := m.remoteWriteRetriesTotal.add 1 } }
  | _ => r

/-- The pause doubles, up to the largest one. -/
def wake (task : EndpointTask deps) (r : EndpointRun) : EndpointRun :=
  match r.flush with
  | .pausing delivery backoff =>
      { r with
        flush := .sending delivery ⟨Retry.next task.connection.maxBackoff.nanos backoff.nanos⟩ }
  | _ => r

def step (dd : DeliveryDeps) (task : EndpointTask deps) (r : EndpointRun) :
    EndpointEvent → EndpointRun
  | .trySend payload => r.trySend payload
  | .receive => r.loopStep dd task Sender.receive
  | .drain => r.loopStep dd task Sender.drain
  | .tick => r.loopStep dd task Sender.tick
  | .finish closed => r.loopStep dd task (Sender.finish closed)
  | .answer a => r.answer dd task a
  | .wake => r.wake task

/-- The endpoint after some schedule. -/
def after (dd : DeliveryDeps) (task : EndpointTask deps) (events : List EndpointEvent) :
    EndpointRun :=
  Transition.run (step dd task) (init task) events

end EndpointRun

end PromScrape
