import PromScrape.Implementation.Scrape
import PromScrape.Proofs.ParserBody

set_option autoImplicit false

/-! # Staleness tracking with every label set in memory

A series has an identity: the raw text of its name and label set, or, in the protobuf format, its
labels and whether it is a native histogram. The naive tracker here stores, after every scrape, the
final label set of each identity the scrape emitted; when an identity is missing from the next
scrape, its marker is written from the store. There are no hashes and no retained bodies. -/

namespace PromScrape

open Utf8 (ofUtf8Bytes?)

/-! ## Identities -/

/-- What makes samples of two scrapes samples of one series. -/
inductive Identity where
  | text (raw : List Char)
  | protobuf (labels : List Label) (native : Bool)
deriving DecidableEq, Repr

def Identity.hash : Identity → UInt64
  | .text raw => (FxHasher.default.write (Utf8.encode raw)).finish
  | .protobuf labels native => identityHashOf labels native

/-- The series of a body with their identities; none if the body is rejected. -/
def identified (deps : ScrapeDeps) (target : Target deps.relabel.engine) (body : ScrapeBody)
    (startMs : Int64) : List (Identity × TimeSeries) :=
  match body.format with
  | .text =>
      match (ofUtf8Bytes? body.bytes).map fun text => readBody 0 (bodyLines text.toList) with
      | some (.ok samples) =>
          samples.map fun s => (.text s.identity, s.series startMs target.honorTimestamps)
      | _ => []
  | .protobuf =>
      match parseProtobuf deps.prost body.bytes startMs target.protobuf with
      | .ok series => series.map fun s => (.protobuf s.labels s.histogram.isSome, s)
      | .error _ => []

/-- The series that a scrape exposes at its own time; none if it failed or was discarded. -/
def exposed (deps : ScrapeDeps) (target : Target deps.relabel.engine) (event : ScrapeEvent) :
    List (Identity × TimeSeries) :=
  match event.fetched with
  | .error _ => []
  | .ok body =>
      let all := identified deps target body event.startMs
      if 0 < target.sampleLimit ∧ target.sampleLimit < UInt64.ofNat all.length then []
      else all.filter (·.2.sample.timestamp == event.startMs)

/-- A series with its final label set, unless it is dropped. -/
def finalized (deps : ScrapeDeps) (target : Target deps.relabel.engine)
    (entry : Identity × TimeSeries) : Option (Identity × List Label) :=
  match finalizeSeriesLabels deps.relabel entry.2.labels target with
  | .ok (some labels) => some (entry.1, labels)
  | _ => none

/-- The series that a scrape sends at its own time, each with the label set that is sent. -/
def emitted (deps : ScrapeDeps) (target : Target deps.relabel.engine) (event : ScrapeEvent) :
    List (Identity × List Label) :=
  (exposed deps target event).filterMap (finalized deps target)

/-! ## The naive tracker -/

/-- A label set for each identity. -/
abbrev Store := List (Identity × List Label)

/-- What is stored after a scrape: one entry for each identity. -/
def Store.of (current : List (Identity × List Label)) : Store :=
  current.pwFilter fun a b => a.1 ≠ b.1

/-- A marker for each stored identity that is missing from `current`. -/
def Store.markers (store : Store) (current : List (Identity × List Label)) (timestamp : Int64) :
    List TimeSeries :=
  (store.filter fun entry => !(current.map Prod.fst).contains entry.1).map
    fun entry => staleSeries entry.2 timestamp

/-- A marker for everything stored. -/
def Store.drain (store : Store) (timestamp : Int64) : List TimeSeries :=
  store.map fun entry => staleSeries entry.2 timestamp

/-- The markers of each scrape of a run, and what is stored in the end. -/
def naiveLoop (deps : ScrapeDeps) (target : Target deps.relabel.engine) :
    Store → List ScrapeEvent → List (List TimeSeries) × Store
  | store, [] => ([], store)
  | store, event :: rest =>
      let current := emitted deps target event
      let after := naiveLoop deps target (Store.of current) rest
      (store.markers current event.startMs :: after.1, after.2)

/-! ## What the tracker relies on -/

/-- Decompression undoes compression on the bodies of these scrapes. -/
def RoundTrips (deps : ScrapeDeps) (events : List ScrapeEvent) : Prop :=
  ∀ event ∈ events, ∀ body, event.fetched = .ok body →
    ∃ compressed, deps.compress body.bytes = some compressed ∧
      deps.decompress compressed = some body.bytes

/-- Distinct identities that occur in these scrapes have distinct hashes. -/
def DistinctHashes (deps : ScrapeDeps) (target : Target deps.relabel.engine)
    (events : List ScrapeEvent) : Prop :=
  ∀ event ∈ events, ∀ event' ∈ events, ∀ a ∈ emitted deps target event,
    ∀ b ∈ emitted deps target event', a.1.hash = b.1.hash → a.1 = b.1

end PromScrape
