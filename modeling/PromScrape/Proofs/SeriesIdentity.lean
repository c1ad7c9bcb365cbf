import PromScrape.Spec.Staleness
import PromScrape.Proofs.ParserLines
import PromScrape.Proofs.ProtobufSeries

set_option autoImplicit false

/-! # Identities determine labels

An identity is enough to know a series' raw labels and its hash: a text identity can be read again
as a line of its own, a protobuf identity holds its labels. So the series of a body are those of
the parser, each with the hash and the labels of its identity. -/

namespace PromScrape

open Utf8 (utf8Bytes ofUtf8Bytes?)
open Fallible (map_eq_ok)

/-! ## Text -/

/-- A line with the identity of `line` and nothing else to say. -/
theorem SampleLine.identityLine {line : List Char} {s : SampleText} (h : SampleLine line s) :
    SampleLine (s.identity ++ [' ', '1']) ⟨s.name, s.identity, s.pairs, F64.one, none⟩ := by
  cases h with
  | @mk b name part identity value tail pairs v timestamp hb hname hlongest hpart hpairs =>
      have hone : IsToken ['1'] := ⟨List.cons_ne_nil _ _, List.forall_mem_singleton.mpr rfl⟩
      have hvalue : parseValue (String.ofList ['1']) = some F64.one := by decide +kernel
      have htail : TailText [] none := .bare (.blank nofun)
      have hblank : Blanks [' '] := List.forall_mem_singleton.mpr rfl
      have hend : NotStarting (isNameTail true) ([' '] ++ ['1']) :=
        notStarting_cons.mpr (by decide)
      cases hpart with
      | absent hb' hbrace =>
          have hline := SampleLine.mk (b := []) nofun hname hend
            (.absent hblank (notStarting_cons.mpr (by decide))) hpairs hone hvalue htail
          simpa only [List.append_nil, List.nil_append, List.cons_append] using hline
      | @present b₁ inner b₂ _ h₁ hinner h₂ =>
          have hstart : NotStarting (isNameTail true)
              (b₁ ++ '{' :: (inner ++ '}' :: [' ']) ++ ['1']) := by
            rw [List.append_assoc]
            exact notStarting_blanks_append h₁ (notStarting_cons.mpr (by decide))
          have hline := SampleLine.mk (b := []) nofun hname hstart
            (.present h₁ hinner hblank) hpairs hone hvalue htail
          simpa only [List.append_assoc, List.append_nil, List.nil_append, List.cons_append]
            using hline

/-- The raw labels of a series. -/
def Identity.labels : Identity → List Label
  | .text raw =>
      match readLine (raw ++ [' ', '1']) with
      | some (some s) => ⟨metricNameLabel, String.ofList s.name⟩ :: s.pairs
      | _ => []
  | .protobuf labels _ => labels

theorem labels_text {line : List Char} {s : SampleText} (h : readLine line = some (some s)) :
    (Identity.text s.identity).labels = ⟨metricNameLabel, String.ofList s.name⟩ :: s.pairs := by
  have hread := readLine_eq_sample_iff.mpr (readLine_eq_sample_iff.mp h).identityLine
  rw [Identity.labels, hread]

/-- Every sample of a body is that of one of its lines. -/
theorem readLine_of_mem_readBody {lines : List (List Char)} :
    ∀ {n : Nat} {samples : List SampleText}, readBody n lines = .ok samples →
      ∀ s ∈ samples, ∃ line, readLine line = some (some s) := by
  induction lines with
  | nil =>
      rintro n samples h s hs
      cases h
      cases hs
  | cons line rest ih =>
      intro n samples h s hs
      rw [readBody] at h
      cases hread : readLine (dropCr line) with
      | none =>
          rw [hread] at h
          cases h
      | some first =>
          rw [hread] at h
          dsimp only at h
          cases hrest : readBody (n + 1) rest with
          | error e =>
              rw [hrest] at h
              cases h
          | ok samples' =>
              rw [hrest] at h
              cases h
              rcases List.mem_append.mp hs with hfirst | hs
              · rw [Option.mem_toList] at hfirst
                exact ⟨_, hfirst ▸ hread⟩
              · exact ih hrest s hs

/-! ## Protobuf -/

/-- The hash is that of the labels and the kind. -/
def HashedByLabels (series : List TimeSeries) : Prop :=
  ∀ s ∈ series, s.identityHash = identityHashOf s.labels s.histogram.isSome

theorem float_identity {b : SeriesBuilder} {debugStr : String → String} {suffix : String}
    {extra : Option Label} {value : F64} {s : TimeSeries}
    (h : b.float debugStr suffix extra value = .ok s) :
    s.identityHash = identityHashOf s.labels s.histogram.isSome := by
  obtain ⟨labels, -, rfl⟩ := map_eq_ok.mp h
  rfl

/-- However a builder makes a series. -/
theorem SeriesBuilder.Makes.identity {b : SeriesBuilder} {debugStr : String → String}
    {derives : Bool} {s : TimeSeries} (h : b.Makes debugStr derives s) :
    s.identityHash = identityHashOf s.labels s.histogram.isSome := by
  cases h with
  | native histogram => rfl
  | plain _ hfloat => exact float_identity hfloat
  | derived _ _ hfloat => exact float_identity hfloat

/-- **Protobuf series are hashed by their labels and kind.** -/
theorem parseProtobuf_identity {prost : ProstDecoder} {body : List UInt8}
    {defaultTimestampMs : Int64} {options : ProtobufOptions} {series : List TimeSeries}
    (h : parseProtobuf prost body defaultTimestampMs options = .ok series) :
    HashedByLabels series := by
  intro s hs
  obtain ⟨_, _, _, _, ms, ⟨_, _, -, -, -, hmetric⟩, hmem⟩ := (parseProtobuf_converts h).source s hs
  exact ((metric_makes hmetric).makes s hmem).identity

/-! ## Bodies -/

/-- The parser's view of a body and the identified one. -/
theorem parseBody_identified (deps : ScrapeDeps) (target : Target deps.relabel.engine)
    (body : ScrapeBody) (startMs : Int64) :
    match parseBody deps target body.bytes body.format startMs with
    | .ok (.ok series) => (identified deps target body startMs).map Prod.snd = series
    | .ok (.error _) => identified deps target body startMs = []
    | .error _ => False := by
  obtain ⟨bytes, format⟩ := body
  cases format with
  | text =>
      rw [parseBody, identified]
      dsimp only
      cases ofUtf8Bytes? bytes with
      | none => rfl
      | some text =>
          have hagrees := parse_agrees text startMs target.honorTimestamps
          dsimp only [Option.map_some]
          generalize parse text startMs target.honorTimestamps = result at hagrees
          generalize readBody 0 (bodyLines text.toList) = read at hagrees
          match result, read, hagrees with
          | .ok _, .ok samples, rfl =>
              simp only [List.map_map, List.nil_append]
              rfl
          | .error (.error e), .error _, _ => rfl
  | protobuf =>
      rw [parseBody, identified]
      dsimp only
      cases parseProtobuf deps.prost bytes startMs target.protobuf with
      | error e => rfl
      | ok series => simp [Except.mapError, Function.comp_def]

/-- **The identity of a series determines its hash and its raw labels.** -/
theorem identified_spec {deps : ScrapeDeps} {target : Target deps.relabel.engine}
    {body : ScrapeBody} {startMs : Int64} {entry : Identity × TimeSeries}
    (h : entry ∈ identified deps target body startMs) :
    entry.2.identityHash = entry.1.hash ∧ entry.2.labels = entry.1.labels := by
  obtain ⟨bytes, format⟩ := body
  rw [identified] at h
  cases format with
  | text =>
      dsimp only at h
      split at h
      · next samples hsamples =>
          obtain ⟨text, -, hread⟩ := Option.map_eq_some_iff.mp hsamples
          obtain ⟨s, hs, rfl⟩ := List.mem_map.mp h
          obtain ⟨line, hline⟩ := readLine_of_mem_readBody hread s hs
          exact ⟨rfl, (labels_text hline).symm⟩
      · cases h
  | protobuf =>
      dsimp only at h
      split at h
      · next series hseries =>
          obtain ⟨s, hs, rfl⟩ := List.mem_map.mp h
          exact ⟨parseProtobuf_identity hseries s hs, rfl⟩
      · cases h

end PromScrape
