import PromScrape.Implementation.Relabel

set_option autoImplicit false

/-! # Before a chunk is encoded (`Endpoint::flush` in `src/remote_write.rs`)

`flush` applies the endpoint's write relabeling to every series of a chunk and encodes what is left.
The encoders have files of their own; the rest of `flush`, which compresses the bytes, sends them and
counts what became of them, is in `Delivery`. -/

namespace PromScrape

/-- The closure that `flush` maps over the chunk, down to the end of it. -/
def relabelBatch (deps : RelabelDeps) (writeRelabelConfigs : List (RelabelConfig deps.engine)) :
    List TimeSeries → Except Fault (List TimeSeries)
  | [] => .ok []
  | series :: rest =>
      match process deps series.labels writeRelabelConfigs with
      | .error fault => .error fault
      | .ok none => relabelBatch deps writeRelabelConfigs rest
      | .ok (some labels) =>
          (relabelBatch deps writeRelabelConfigs rest).map
            ({ series with labels := sortLabels labels } :: ·)

/-- The series that `flush` encodes of a chunk; without rules they stay as they are. -/
def flushBatch (deps : RelabelDeps) (writeRelabelConfigs : List (RelabelConfig deps.engine))
    (batch : List TimeSeries) : Except Fault (List TimeSeries) :=
  if writeRelabelConfigs.isEmpty then .ok batch else relabelBatch deps writeRelabelConfigs batch

end PromScrape
