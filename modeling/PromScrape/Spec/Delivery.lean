import PromScrape.Implementation.Delivery
import PromScrape.Proofs.RemoteWrite

set_option autoImplicit false

/-! # What an endpoint does with the batches it accepted

Stated over the logs of a run: what became of each chunk and why, what went over the wire, and when an
attempt was repeated. -/

namespace PromScrape

variable {deps : RelabelDeps}

/-- The receiver took the request. -/
def Answer.accepts : Answer → Bool
  | .failed _ => false
  | .response status _ _ _ => isSuccess status

/-- The request is sent again. -/
def Answer.asksAgain (statusText : Nat → String) (answer : Answer) : Bool :=
  match sendOnce statusText answer with
  | .error (.recoverable _) => true
  | _ => false

namespace Delivery

def answers (delivery : Delivery) : List Answer := delivery.attempts.map Attempt.answer

/-- The attempts as they went over the wire. -/
def exchanges (delivery : Delivery) : List (Request × Answer) :=
  delivery.answers.map (delivery.request, ·)

/-- The request carries the chunk as `flush` relabels, encodes and compresses it. -/
structure Prepared (dd : DeliveryDeps) (task : EndpointTask deps) (delivery : Delivery) : Prop where
  batch : flushBatch deps task.writeRelabelConfigs delivery.chunk = .ok delivery.batch
  nonempty : delivery.batch ≠ []
  written : delivery.written = countWritten delivery.batch
  request : ∃ scratch encoded scratch' compressed,
    encodeBatch task.connection.protocol delivery.batch scratch = some (encoded, scratch') ∧
      dd.compress encoded = .ok compressed ∧ delivery.request = task.connection.request compressed

/-- After the `i`th attempt, if it is repeated, comes the `i`th pause. -/
def Paced (dd : DeliveryDeps) (task : EndpointTask deps) (delivery : Delivery) : Prop :=
  ∀ (i : Nat) (attempt : Attempt), delivery.attempts[i]? = some attempt →
    attempt.pause = if attempt.answer.asksAgain dd.statusText then
      some ⟨Retry.pause task.connection.minBackoff.nanos task.connection.maxBackoff.nanos i⟩ else none

/-- The attempts ended with this answer. -/
structure EndedBy (dd : DeliveryDeps) (task : EndpointTask deps) (delivery : Delivery)
    (chunk : List TimeSeries) (last : Answer) : Prop where
  chunk : delivery.chunk = chunk
  prepared : delivery.Prepared dd task
  paced : delivery.Paced dd task
  settled : Retry.SettledBy (Answer.asksAgain dd.statusText) delivery.answers last

end Delivery

namespace Outcome

/-- Why this became of the chunk. -/
def Justified (dd : DeliveryDeps) (task : EndpointTask deps) (chunk : List TimeSeries) :
    Outcome → Prop
  | .empty => flushBatch deps task.writeRelabelConfigs chunk = .ok []
  | .panicked =>
      (∃ fault, flushBatch deps task.writeRelabelConfigs chunk = .error fault) ∨
        ∃ batch scratch, flushBatch deps task.writeRelabelConfigs chunk = .ok batch ∧
          encodeBatch task.connection.protocol batch scratch = none
  | .uncompressed err =>
      ∃ batch scratch encoded scratch', flushBatch deps task.writeRelabelConfigs chunk = .ok batch ∧
        encodeBatch task.connection.protocol batch scratch = some (encoded, scratch') ∧
          dd.compress encoded = .error err
  | .delivered delivery =>
      ∃ last, delivery.EndedBy dd task chunk last ∧ last.accepts = true
  | .dropped delivery message =>
      ∃ last, delivery.EndedBy dd task chunk last ∧
        sendOnce dd.statusText last = .error (.unrecoverable message)

def exchanges : Outcome → List (Request × Answer)
  | .delivered delivery => delivery.exchanges
  | .dropped delivery _ => delivery.exchanges
  | _ => []

/-- The request that was accepted, if one was. -/
def accepted : Outcome → Option Request
  | .delivered delivery => some delivery.request
  | _ => none

def isDelivered : Outcome → Bool
  | .delivered _ => true
  | _ => false

def isDropped : Outcome → Bool
  | .dropped _ _ => true
  | _ => false

/-- What the receiver reported not to have written of it. -/
def partialWrites (protocol : ProtobufMessage) : Outcome → List PartialWrite
  | .delivered delivery => delivery.answers.flatMap (PromScrape.partialWrites protocol delivery.written)
  | _ => []

end Outcome

/-- The chunk that `flush` works on. -/
def FlushPhase.delivery? : FlushPhase → Option Delivery
  | .sending delivery _ => some delivery
  | .pausing delivery _ => some delivery
  | _ => none

/-- The counters of an endpoint say what happened to it; they count modulo `2 ^ 64`. -/
structure Counted (dd : DeliveryDeps) (task : EndpointTask deps) (r : EndpointRun) : Prop where
  batches : r.metrics.remoteWriteBatchesTotal.get = UInt64.ofNat (r.outcomes.countP (·.2.isDelivered))
  sentBytes : r.metrics.remoteWriteSentBytesTotal.get =
    UInt64.ofNat ((r.outcomes.filterMap (·.2.accepted)).map (·.body.length)).sum
  failed : r.metrics.remoteWriteFailedBatchesTotal.get =
    UInt64.ofNat (r.outcomes.countP (·.2.isDropped))
  retries : r.metrics.remoteWriteRetriesTotal.get =
    UInt64.ofNat (r.wire.countP (·.2.asksAgain dd.statusText))
  droppedSeries : r.metrics.remoteWriteDroppedSeriesTotal.get =
    UInt64.ofNat (r.sender.rejected.map List.length).sum
  /-- Each shortfall that a receiver reports is warned about, and nothing else is. -/
  warnings : r.warnings = r.outcomes.flatMap (·.2.partialWrites task.connection.protocol)

/-- What holds of an endpoint in every state it reaches. -/
structure Delivers (dd : DeliveryDeps) (task : EndpointTask deps) (r : EndpointRun) : Prop where
  /-- Each chunk is dealt with once, in the order in which the loop hands them over. -/
  chunks : r.outcomes.map Prod.fst ++ (r.flush.delivery?.map Delivery.chunk).toList = r.sender.flushed
  justified : ∀ outcome ∈ r.outcomes, outcome.2.Justified dd task outcome.1
  /-- Nothing goes over the wire but the attempts of the chunks, one chunk after the other. -/
  wire : r.wire = r.outcomes.flatMap (·.2.exchanges) ++
    (r.flush.delivery?.map Delivery.exchanges).getD []
  /-- What receivers accepted is each delivered chunk's request, once. -/
  accepted : (r.wire.filter (·.2.accepts)).map Prod.fst = r.outcomes.filterMap (·.2.accepted)
  /-- Unless the task panicked, it has dealt with what the queue accepted, or still holds it. -/
  conserved : r.flush ≠ .panicked →
    r.sender.flushed.flatten ++ r.sender.pending ++ r.sender.endpoint.keep r.sender.queue.flatten =
      r.sender.endpoint.keep r.sender.accepted.flatten
  /-- Once it has returned, it has dealt with all of it. -/
  returned : r.sender.phase = .stopped → r.flush = .idle →
    (r.outcomes.map Prod.fst).flatten = r.sender.endpoint.keep r.sender.accepted.flatten

end PromScrape
