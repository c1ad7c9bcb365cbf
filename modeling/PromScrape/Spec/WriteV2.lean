import PromScrape.Library.Interning
import PromScrape.Spec.Prompb

set_option autoImplicit false

/-! # What a 2.0 request should be

The request that interning a batch naively produces (`naiveV2`), as the reference encoder of the
source's tests builds it, and how a receiver reads one: every label reference resolved through the
symbol table (`WriteRequestV2.resolve`). -/

namespace PromScrape

/-- Every label string, names and values alternating. -/
def stringsOf (labels : List Label) : List String := labels.flatMap (fun l => [l.name, l.value])

def labelStrings (batch : List TimeSeries) : List String :=
  batch.flatMap (fun series => stringsOf series.labels)

/-- `symbols[0] = ""`, every other distinct string once, in order of first occurrence. -/
def symbolTable (batch : List TimeSeries) : List String := Interning.table "" (labelStrings batch)

/-- A string's position in the table, as the wire carries it. -/
def symbolRef (symbols : List String) (text : String) : UInt32 := UInt32.ofNat (symbols.idxOf text)

def TimeSeries.toV2 (symbols : List String) (s : TimeSeries) : TimeSeriesV2 :=
  let labelsRefs := (stringsOf s.labels).map (symbolRef symbols)
  match s.histogram with
  | some histogram => ⟨labelsRefs, [], [.fromHistogram histogram s.sample.timestamp]⟩
  | none => ⟨labelsRefs, [s.sample], []⟩

def naiveV2 (batch : List TimeSeries) : WriteRequestV2 :=
  ⟨symbolTable batch, batch.map (TimeSeries.toV2 (symbolTable batch))⟩

/-- The size of a series' packed references. -/
def TimeSeriesV2.packedLen (s : TimeSeriesV2) : Nat :=
  (s.labelsRefs.map (fun reference => varintLen reference.toUInt64)).sum

/-! ## Reading a request -/

/-- Labels from pairs of references; nothing for a reference outside the table or a lone one. -/
def resolveLabels (symbols : List String) : List UInt32 → Option (List Label)
  | [] => some []
  | [_] => none
  | name :: value :: rest => do
      let name ← symbols[name.toNat]?
      let value ← symbols[value.toNat]?
      let labels ← resolveLabels symbols rest
      return ⟨name, value⟩ :: labels

def TimeSeriesV2.resolve (symbols : List String) (s : TimeSeriesV2) : Option PbTimeSeries :=
  (resolveLabels symbols s.labelsRefs).map (fun labels => ⟨labels, s.samples, s.histograms⟩)

/-- The 1.0 view of a 2.0 request. -/
def WriteRequestV2.resolve (r : WriteRequestV2) : Option PbWriteRequest :=
  (r.timeseries.mapM (TimeSeriesV2.resolve r.symbols)).map PbWriteRequest.mk

/-- Every reference points into the symbol table. -/
def WriteRequestV2.RefsInRange (r : WriteRequestV2) : Prop :=
  ∀ s ∈ r.timeseries, ∀ reference ∈ s.labelsRefs, reference.toNat < r.symbols.length

end PromScrape
