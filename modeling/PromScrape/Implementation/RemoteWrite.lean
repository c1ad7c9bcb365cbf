import PromScrape.Library.Transition
import PromScrape.Implementation.Config

set_option autoImplicit false

/-! # Fan-out and sender loops (`src/remote_write.rs`)

`RemoteWriteHandle::send` offers a batch to every endpoint's bounded queue; one task per endpoint
(`Endpoint::run`) moves batches from its queue to `pending` and hands chunks to `flush`. Tasks run in
any order, so the system is a step function over events, each what one task does between two points
where another may run: one `try_send` of a `send` call, one `recv`, one round of the inner `while`,
one deadline tick, the end of the loop. An event whose task is not at that point does nothing.

`accepted`, `rejected` and `flushed` are logs for the proofs; no step reads them. What `flush` does
with a chunk is not part of this file. -/

namespace PromScrape

open Regex (Engine)

/-! ## One endpoint -/

/-- The settings of an endpoint that the loop reads, and the slots of its queue. -/
structure Endpoint where
  sendNativeHistograms : Bool
  maxSamplesPerSend : Nat
  slots : Nat
deriving DecidableEq, Repr

/-- The queue is bounded in batches, the configured capacity is in samples. -/
def queueSlots {E : Engine} (config : RemoteWriteConfig E) : Nat :=
  max (config.queueConfig.capacity / 100) 16

def Endpoint.new {E : Engine} (config : RemoteWriteConfig E) : Endpoint :=
  { sendNativeHistograms := config.sendNativeHistograms
    maxSamplesPerSend := config.queueConfig.maxSamplesPerSend
    slots := queueSlots config }

/-- Where the task is: at the `select!`, in the `while` loop, or past its last flush. -/
inductive Phase where
  | select
  | draining
  | stopped
deriving DecidableEq, Repr

structure Sender where
  endpoint : Endpoint
  queue : List (List TimeSeries) := []
  pending : List TimeSeries := []
  pendingSamples : Nat := 0
  phase : Phase := .select
  /-- Batches the queue took, batches it refused, chunks handed to `flush`; oldest first. -/
  accepted : List (List TimeSeries) := []
  rejected : List (List TimeSeries) := []
  flushed : List (List TimeSeries) := []
deriving DecidableEq, Repr

/-- Remove native histogram samples. -/
def dropNativeHistograms (batch : List TimeSeries) : List TimeSeries :=
  batch.filter (fun series => series.histogram.isNone)

/-- Split off up to `maxSamples` leading series: the chunk, the rest, and the chunk's samples. -/
def splitBatch (pending : List TimeSeries) (maxSamples : Nat) :
    List TimeSeries × List TimeSeries × Nat :=
  let cut := min maxSamples pending.length
  let chunk := pending.take cut
  (chunk, pending.drop cut, chunk.length)

/-- `try_send`: refused when the queue is full or its receiver is gone. -/
def Sender.trySend (s : Sender) (payload : List TimeSeries) : Sender × Bool :=
  if s.phase = .stopped ∨ s.endpoint.slots ≤ s.queue.length then
    ({ s with rejected := s.rejected ++ [payload] }, false)
  else ({ s with queue := s.queue ++ [payload], accepted := s.accepted ++ [payload] }, true)

/-- `rx.recv()` gives a batch, which goes to `pending`. -/
def Sender.receive (s : Sender) : Sender :=
  match s.phase, s.queue with
  | .select, batch :: queue =>
      let batch := if !s.endpoint.sendNativeHistograms then dropNativeHistograms batch else batch
      { s with
        queue := queue
        pendingSamples := s.pendingSamples + batch.length
        pending := s.pending ++ batch
        phase := .draining }
  | _, _ => s

/-- One evaluation of the `while` condition, and the loop body if it holds. -/
def Sender.drain (s : Sender) : Sender :=
  match s.phase with
  | .draining =>
      if s.pendingSamples ≥ s.endpoint.maxSamplesPerSend then
        let (chunk, rest, samples) := splitBatch s.pending s.endpoint.maxSamplesPerSend
        { s with
          pending := rest
          pendingSamples := s.pendingSamples - samples
          flushed := s.flushed ++ [chunk] }
      else { s with phase := .select }
  | _ => s

/-- The deadline fires. -/
def Sender.tick (s : Sender) : Sender :=
  match s.phase with
  | .select =>
      if !s.pending.isEmpty then
        { s with pending := [], pendingSamples := 0, flushed := s.flushed ++ [s.pending] }
      else s
  | _ => s

/-- `rx.recv()` gives nothing, all senders being gone: the last flush, and the task ends. -/
def Sender.finish (closed : Bool) (s : Sender) : Sender :=
  match s.phase, s.queue with
  | .select, [] =>
      if !closed then s
      else if !s.pending.isEmpty then
        { s with pending := [], flushed := s.flushed ++ [s.pending], phase := .stopped }
      else { s with phase := .stopped }
  | _, _ => s

/-! ## The system -/

/-- A `send` call in progress: its batch and the endpoint it comes to next. -/
structure SendCall where
  batch : List TimeSeries
  next : Nat
deriving DecidableEq, Repr

structure System where
  senders : List Sender
  calls : List SendCall := []
  /-- Total series dropped because an endpoint queue was full. -/
  dropped : UInt64 := 0
  /-- Every clone of the handle has been dropped. -/
  closed : Bool := false
deriving DecidableEq, Repr

inductive Event where
  /-- Some task calls `send`. -/
  | send (batch : List TimeSeries)
  /-- The call at this place in `calls` offers its batch to its next endpoint. -/
  | trySend (call : Nat)
  | receive (endpoint : Nat)
  | drain (endpoint : Nat)
  | tick (endpoint : Nat)
  /-- The last handle goes away; no call can be in progress on it. -/
  | close
  | finish (endpoint : Nat)
deriving DecidableEq, Repr

/-- The calls after the one at `call` has come past its endpoint; past the last one it returns. -/
def advanceCall (endpoints : Nat) (calls : List SendCall) (call : Nat) (c : SendCall) :
    List SendCall :=
  let last := endpoints - 1
  if c.next = last then calls.eraseIdx call else calls.set call { c with next := c.next + 1 }

/-- One round of the loop in `send`. The payload is the batch: itself for the last endpoint, where
    nothing reads it any more, a clone for the others. -/
def System.trySend (s : System) (call : Nat) : System :=
  match s.calls[call]? with
  | none => s
  | some c =>
      match s.senders[c.next]? with
      | none => s
      | some sender =>
          let (sender, accepted) := sender.trySend c.batch
          { s with
            senders := s.senders.set c.next sender
            calls := advanceCall s.senders.length s.calls call c
            dropped := if accepted then s.dropped else s.dropped + UInt64.ofNat c.batch.length }

def System.step (s : System) : Event → System
  | .send batch =>
      if s.closed ∨ batch.isEmpty ∨ s.senders.isEmpty then s
      else { s with calls := s.calls ++ [⟨batch, 0⟩] }
  | .trySend call => s.trySend call
  | .receive i => { s with senders := s.senders.modify i Sender.receive }
  | .drain i => { s with senders := s.senders.modify i Sender.drain }
  | .tick i => { s with senders := s.senders.modify i Sender.tick }
  | .close => if s.calls.isEmpty then { s with closed := true } else s
  | .finish i => { s with senders := s.senders.modify i (Sender.finish s.closed) }

end PromScrape
