import PromScrape.Implementation.EncodeV2
import PromScrape.Spec.WriteV2
import PromScrape.Proofs.EncodeV1

set_option autoImplicit false

/-! # The remote-write 2.0 encoder writes the naively interned request

The invariant of pass 1 is stated against the final symbol table: after the strings `seen`, the
symbols are the table of `seen`, the map knows exactly the non-empty strings of `seen`, and every
reference pushed is the string's position in the *final* table, which is the same as its position
now because a table only grows at its end. The reuse of the previous series' references then needs
no argument about order: an equal string has an equal position. -/

namespace PromScrape

open Utf8 (utf8Bytes)
open ProtoWire
open Interning

/-! ## Pass 1 -/

section Pass1

-- all label strings of the batch, and how many distinct ones there are
variable {all : List String} (hall : all.toFinset.card < 2 ^ 32)

/-- The symbols and the map after interning the strings `seen`. -/
structure Symbols.After (all seen : List String) (s : Symbols) : Prop where
  isPrefix : seen <+: all
  symbols : s.symbols = table "" seen
  index : ∀ text, s.index.lookup text
    = if text ≠ "" ∧ text ∈ seen then some (symbolRef (table "" all) text) else none

theorem Symbols.after_new (all : List String) : Symbols.After all [] Symbols.new :=
  ⟨List.nil_prefix, by simp [Symbols.new], by simp [Symbols.new]⟩

/-- References are positions in the final table from the start. -/
theorem idxOf_seen {all seen : List String} (hpre : seen <+: all) {text : String}
    (htext : text ∈ table "" seen) : (table "" all).idxOf text = (table "" seen).idxOf text := by
  obtain ⟨rest, rfl⟩ := hpre
  exact idxOf_table_append rest htext

/-- A string already in the table adds nothing to what is known. -/
theorem Symbols.After.again {seen : List String} {s : Symbols} (hs : s.After all seen)
    {text : String} (htext : text ∈ table "" seen) (hpre : seen ++ [text] <+: all) :
    s.After all (seen ++ [text]) := by
  refine ⟨hpre, by rw [hs.symbols, table_append_of_mem htext], fun t => ?_⟩
  rw [hs.index]
  refine if_congr (and_congr_right fun ht => ?_) rfl rfl
  rw [List.mem_append, List.mem_singleton]
  refine ⟨Or.inl, fun h => h.elim id ?_⟩
  rintro rfl
  exact (mem_table.1 htext).resolve_left ht

include hall in
theorem intern_after {seen : List String} {s : Symbols} (hs : s.After all seen) (text : String)
    (hpre : seen ++ [text] <+: all) :
    ∃ s', intern s text = (symbolRef (table "" all) text, s') ∧ s'.After all (seen ++ [text]) := by
  by_cases hempty : text = ""
  · subst hempty
    have hroot : symbolRef (table "" all) "" = 0 := by simp [symbolRef, table_eq_cons]
    exact ⟨s, by simp [intern, hroot], hs.again (root_mem_table ..) hpre⟩
  by_cases hseen : text ∈ seen
  · have hlookup : s.index.lookup text = some (symbolRef (table "" all) text) := by
      rw [hs.index, if_pos ⟨hempty, hseen⟩]
    exact ⟨s, by simp [intern, hempty, hlookup], hs.again (mem_table.2 (Or.inr hseen)) hpre⟩
  -- a new symbol: its position is the table's length so far, which fits 32 bits
  have hnew : text ∉ table "" seen := by simp [hempty, hseen]
  have hlookup : s.index.lookup text = none := by rw [hs.index, if_neg (by simp [hseen])]
  have hpos : (table "" all).idxOf text = (table "" seen).length := by
    rw [idxOf_seen hpre (mem_table.2 (Or.inr (by simp))), table_append_of_not_mem hnew,
      List.idxOf_append_of_notMem hnew]
    simp
  have hfit : (table "" seen).length < 2 ^ 32 := by
    have hinsert : (insert text seen.toFinset).card = seen.toFinset.card + 1 :=
      Finset.card_insert_of_notMem (by simpa using hseen)
    have hsub : insert text seen.toFinset ⊆ all.toFinset := by
      intro x hx
      have hmem : x ∈ seen ++ [text] := by simpa [or_comm] using hx
      simpa using hpre.subset hmem
    have hle := length_table_le "" seen
    have hle' := Finset.card_le_card hsub
    omega
  have href : refOfLen s.symbols.length = symbolRef (table "" all) text := by
    rw [refOfLen, hs.symbols, if_pos hfit, symbolRef, hpos]
  refine ⟨⟨s.symbols ++ [text], (text, symbolRef (table "" all) text) :: s.index⟩,
    by simp [intern, hempty, hlookup, href], hpre, ?_, fun t => ?_⟩
  · rw [hs.symbols, table_append_of_not_mem hnew]
  · rw [List.lookup_cons]
    by_cases ht : t = text
    · subst ht
      simp [hempty]
    · have hbeq : (t == text) = false := by simp [ht]
      rw [hbeq, hs.index]
      simp [ht]

/-- A reference that may be handed out for `text` in place of interning it. -/
def Reusable (all seen : List String) (text : String) (reference : Option UInt32) : Prop :=
  ∀ r, reference = some r → r = symbolRef (table "" all) text ∧ text ∈ table "" seen

include hall in
theorem refOrIntern_after {seen : List String} {s : Symbols} (hs : s.After all seen)
    {reference : Option UInt32} {text : String} (hreuse : Reusable all seen text reference)
    (hpre : seen ++ [text] <+: all) :
    ∃ s', refOrIntern s reference text = (symbolRef (table "" all) text, s') ∧
      s'.After all (seen ++ [text]) := by
  cases reference with
  | none => exact intern_after hall hs text hpre
  | some r =>
      obtain ⟨rfl, hmem⟩ := hreuse r rfl
      exact ⟨s, rfl, hs.again hmem hpre⟩

/-! ### The previous series' references -/

theorem stringsOf_cons (l : Label) (rest : List Label) :
    stringsOf (l :: rest) = l.name :: l.value :: stringsOf rest := rfl

theorem getElem?_stringsOf (labels : List Label) (i : Nat) :
    (stringsOf labels)[2 * i]? = labels[i]?.map Label.name ∧
      (stringsOf labels)[2 * i + 1]? = labels[i]?.map Label.value := by
  induction labels generalizing i with
  | nil => simp [stringsOf]
  | cons l rest ih =>
      cases i with
      | zero => simp [stringsOf_cons]
      | succ i =>
          rw [stringsOf_cons, show 2 * (i + 1) = 2 * i + 1 + 1 by omega]
          simpa using ih i

theorem length_stringsOf (labels : List Label) : (stringsOf labels).length = 2 * labels.length := by
  induction labels with
  | nil => rfl
  | cons l rest ih =>
      rw [stringsOf_cons, List.length_cons, List.length_cons, List.length_cons, ih]
      omega

/-- Where the strings of the previous series lie in the stream when its label count matches. -/
def PrevAt (prev : Option TimeSeries) (prevMatches : Bool) (base len : Nat) (seen : List String) :
    Prop :=
  prevMatches = true → ∃ p before done, prev = some p ∧ p.labels.length = len ∧
    seen = before ++ stringsOf p.labels ++ done ∧ base = before.length + 2 * len

theorem PrevAt.append {prev : Option TimeSeries} {prevMatches : Bool} {base len : Nat}
    {seen : List String} (h : PrevAt prev prevMatches base len seen) (more : List String) :
    PrevAt prev prevMatches base len (seen ++ more) := by
  intro hmatches
  obtain ⟨p, before, done, hprev, hlen, hseen, hbase⟩ := h hmatches
  exact ⟨p, before, done ++ more, hprev, hlen, by rw [hseen, List.append_assoc _ done], hbase⟩

variable (all) in
theorem reuseRef_seen {seen : List String} {i : Nat} {previous : String} (text : String)
    (hi : seen[i]? = some previous) :
    ∃ r, reuseRef (seen.map (symbolRef (table "" all))) i (previous == text) = some r ∧
      Reusable all seen text r := by
  unfold reuseRef
  split
  · next heq =>
      rw [List.getElem?_map, hi, ← eq_of_beq heq]
      refine ⟨_, rfl, fun r hr => ⟨(Option.some.inj hr).symm, ?_⟩⟩
      exact mem_table.2 (Or.inr (List.mem_of_getElem? hi))
  · exact ⟨none, rfl, fun r hr => by cases hr⟩

variable (all) in
/-- The shortcut never goes out of bounds and only hands out right references. -/
theorem previousRefs_reusable {prev : Option TimeSeries} {prevMatches : Bool} {base len : Nat}
    {seen : List String} (hprev : PrevAt prev prevMatches base len seen) {position : Nat}
    (hposition : position < len) (label : Label) :
    ∃ n v, previousRefs prev prevMatches (seen.map (symbolRef (table "" all))) base len position label
      = some (n, v) ∧ Reusable all seen label.name n ∧ Reusable all seen label.value v := by
  have hnone : ∀ text, Reusable all seen text none := fun text r hr => by cases hr
  cases hm : prevMatches with
  | false => exact ⟨none, none, rfl, hnone _, hnone _⟩
  | true =>
      obtain ⟨p, before, done, rfl, rfl, hseen, rfl⟩ := hprev hm
      have hget : p.labels[position]? = some p.labels[position] :=
        List.getElem?_eq_getElem hposition
      have hlen : (stringsOf p.labels).length = 2 * p.labels.length := length_stringsOf _
      -- a reference is looked up at the place of the same string of the previous series
      have hat : ∀ k, k < 2 * p.labels.length →
          seen[before.length + k]? = (stringsOf p.labels)[k]? := by
        intro k hk
        rw [hseen, List.append_assoc, List.getElem?_append_right (by omega),
          Nat.add_sub_cancel_left, List.getElem?_append_left (by omega)]
      have hname : seen[before.length + 2 * position]? = some p.labels[position].name := by
        rw [hat _ (by omega), (getElem?_stringsOf _ _).1, hget]
        rfl
      have hvalue : seen[before.length + (2 * position + 1)]? = some p.labels[position].value := by
        rw [hat _ (by omega), (getElem?_stringsOf _ _).2, hget]
        rfl
      obtain ⟨n, hn, hreuseN⟩ := reuseRef_seen all label.name hname
      obtain ⟨v, hv, hreuseV⟩ := reuseRef_seen all label.value hvalue
      refine ⟨n, v, ?_, hreuseN, hreuseV⟩
      rw [← Nat.add_assoc] at hv
      simp [previousRefs, hget, hn, hv]

/-! ### The loops -/

/-- The state of pass 1 after the strings `seen`. -/
structure V2Pass.After (all seen : List String) (pass : V2Pass) : Prop where
  symbols : pass.symbols.After all seen
  refs : pass.refs = seen.map (symbolRef (table "" all))

/-- The packed size of the references of some strings. -/
def packedLenOf (all strings : List String) : Nat :=
  (strings.map (fun text => varintLen (symbolRef (table "" all) text).toUInt64)).sum

include hall in
theorem passLabel_after {prev : Option TimeSeries} {prevMatches : Bool} {base len position : Nat}
    {seen : List String} {pass : V2Pass} (hpass : pass.After all seen)
    (hprev : PrevAt prev prevMatches base len seen) (hposition : position < len) (label : Label)
    (hpre : seen ++ [label.name, label.value] <+: all) :
    ∃ pass', passLabel prev prevMatches base len position pass label = some pass' ∧
      pass'.After all (seen ++ [label.name, label.value]) ∧
      pass'.packed = pass.packed + packedLenOf all [label.name, label.value] := by
  obtain ⟨n, v, hreused, hn, hv⟩ := previousRefs_reusable all hprev hposition label
  have hpreN : seen ++ [label.name] <+: all := by
    refine List.IsPrefix.trans ⟨[label.value], ?_⟩ hpre
    simp
  have hpreV : seen ++ [label.name] ++ [label.value] <+: all := by simpa using hpre
  obtain ⟨s₁, hs₁, hafter₁⟩ := refOrIntern_after hall hpass.symbols hn hpreN
  have hv' : Reusable all (seen ++ [label.name]) label.value v := fun r hr =>
    ⟨(hv r hr).1, (table_isPrefix ..).subset (hv r hr).2⟩
  obtain ⟨s₂, hs₂, hafter₂⟩ := refOrIntern_after hall hafter₁ hv' hpreV
  refine ⟨_, by rw [passLabel, hpass.refs, hreused]; rfl, ⟨?_, ?_⟩, ?_⟩
  · simpa [hs₁, hs₂] using hafter₂
  · simp [hs₁, hs₂]
  · simp [hs₁, hs₂, packedLenOf]

include hall in
theorem passLabels_after {prev : Option TimeSeries} {prevMatches : Bool} {base len : Nat}
    (labels : List Label) {position : Nat} {seen : List String} {pass : V2Pass}
    (hpass : pass.After all seen) (hprev : PrevAt prev prevMatches base len seen)
    (hposition : position + labels.length = len) (hpre : seen ++ stringsOf labels <+: all) :
    ∃ pass', passLabels prev prevMatches base len position labels pass = some pass' ∧
      pass'.After all (seen ++ stringsOf labels) ∧
      pass'.packed = pass.packed + packedLenOf all (stringsOf labels) := by
  induction labels generalizing position seen pass with
  | nil => exact ⟨pass, rfl, by simpa [stringsOf] using hpass, by simp [stringsOf, packedLenOf]⟩
  | cons label rest ih =>
      have hcons : stringsOf (label :: rest) = [label.name, label.value] ++ stringsOf rest := rfl
      rw [hcons, ← List.append_assoc] at hpre ⊢
      rw [List.length_cons] at hposition
      obtain ⟨pass₁, hstep, hafter₁, hpacked₁⟩ := passLabel_after hall hpass hprev
        (show position < len by omega) label (List.IsPrefix.trans (List.prefix_append _ _) hpre)
      obtain ⟨pass₂, hrest, hafter₂, hpacked₂⟩ := ih hafter₁ (hprev.append _)
        (show position + 1 + rest.length = len by omega) hpre
      refine ⟨pass₂, by rw [passLabels, hstep]; exact hrest, hafter₂, ?_⟩
      rw [hpacked₂, hpacked₁]
      simp only [packedLenOf, List.map_append, List.sum_append]
      omega

/-- The state of pass 1 after the series `seen`. -/
structure V2Interned.After (all : List String) (seen : List TimeSeries) (st : V2Interned) :
    Prop where
  symbols : st.symbols.After all (labelStrings seen)
  refs : st.scratch.refs = (labelStrings seen).map (symbolRef (table "" all))
  packedLens : st.scratch.packedLens
    = seen.map (fun series => UInt32.ofNat (packedLenOf all (stringsOf series.labels)))

theorem labelStrings_append_singleton (seen : List TimeSeries) (series : TimeSeries) :
    labelStrings (seen ++ [series]) = labelStrings seen ++ stringsOf series.labels := by
  simp [labelStrings]

include hall in
theorem passSeries_after {seen : List TimeSeries} {st : V2Interned} (hst : st.After all seen)
    (series : TimeSeries) (hpre : labelStrings (seen ++ [series]) <+: all) :
    ∃ st', passSeries seen.getLast? st series = some st' ∧ st'.After all (seen ++ [series]) := by
  rw [labelStrings_append_singleton] at hpre
  -- the references of the last series are the last ones of the scratch vector
  have hprev : PrevAt seen.getLast?
      (seen.getLast?.any (fun p => p.labels.length == series.labels.length))
      st.scratch.refs.length series.labels.length (labelStrings seen) := by
    intro hmatches
    rcases List.eq_nil_or_concat' seen with rfl | ⟨before, p, rfl⟩
    · simp at hmatches
    · have hlen : p.labels.length = series.labels.length := by simpa using hmatches
      refine ⟨p, labelStrings before, [], by simp, hlen, ?_, ?_⟩
      · rw [labelStrings_append_singleton, List.append_nil]
      · rw [hst.refs, List.length_map, labelStrings_append_singleton, List.length_append,
          length_stringsOf, hlen]
  have hpass : V2Pass.After all (labelStrings seen) ⟨st.symbols, st.scratch.refs, 0⟩ :=
    ⟨hst.symbols, hst.refs⟩
  obtain ⟨pass, hrun, hafter, hpacked⟩ := passLabels_after hall series.labels hpass hprev
    (Nat.zero_add _) hpre
  refine ⟨_, by rw [passSeries, hrun]; rfl, ⟨?_, ?_, ?_⟩⟩
  · rw [labelStrings_append_singleton]
    exact hafter.symbols
  · rw [labelStrings_append_singleton]
    exact hafter.refs
  · rw [List.map_append, hst.packedLens, hpacked, Nat.zero_add]
    rfl

include hall in
/-- **Pass 1 over a whole batch** reaches the final table, whatever came before. -/
theorem passBatch_after (rest : List TimeSeries) {seen : List TimeSeries} {st : V2Interned}
    (hst : st.After all seen) (hpre : labelStrings (seen ++ rest) <+: all) :
    ∃ st', passBatch seen.getLast? rest st = some st' ∧ st'.After all (seen ++ rest) := by
  induction rest generalizing seen st with
  | nil => exact ⟨st, rfl, by simpa using hst⟩
  | cons series rest ih =>
      rw [List.append_cons] at hpre ⊢
      have hfirst : labelStrings (seen ++ [series]) <+: all := by
        refine List.IsPrefix.trans ⟨labelStrings rest, ?_⟩ hpre
        simp [labelStrings]
      obtain ⟨st₁, hstep, hafter₁⟩ := passSeries_after hall hst series hfirst
      obtain ⟨st₂, hrest, hafter₂⟩ := ih hafter₁ hpre
      refine ⟨st₂, ?_, hafter₂⟩
      rw [passBatch, hstep]
      simpa using hrest

end Pass1

/-! ## Pass 2 -/

/-- A series' references in the naive request. -/
def refsOf (symbols : List String) (series : TimeSeries) : List UInt32 :=
  (stringsOf series.labels).map (symbolRef symbols)

theorem putBatchV2_eq (symbols : List String) (batch : List TimeSeries) (packed : TimeSeries → UInt32)
    (before : List UInt32) :
    putBatchV2 (before ++ (labelStrings batch).map (symbolRef symbols)) before.length
      (batch.zip (batch.map packed))
      = some (batch.flatMap (fun s => putSeriesV2 s (refsOf symbols s) (packed s).toNat)) := by
  induction batch generalizing before with
  | nil => rfl
  | cons series rest ih =>
      have hcons : (labelStrings (series :: rest)).map (symbolRef symbols)
          = refsOf symbols series ++ (labelStrings rest).map (symbolRef symbols) := by
        simp [labelStrings, refsOf]
      have hlen : (refsOf symbols series).length = series.labels.length * 2 := by
        rw [refsOf, List.length_map, length_stringsOf, Nat.mul_comm]
      have hrest := ih (before ++ refsOf symbols series)
      rw [List.append_assoc, List.length_append, hlen] at hrest
      have hslice : ((before ++ (refsOf symbols series ++ (labelStrings rest).map
          (symbolRef symbols))).drop before.length).take (series.labels.length * 2)
          = refsOf symbols series := by
        rw [List.drop_left, ← hlen, List.take_left]
      have hbound : before.length + series.labels.length * 2
          ≤ (before ++ (refsOf symbols series ++ (labelStrings rest).map (symbolRef symbols))).length := by
        simp only [List.length_append, hlen]
        omega
      rw [hcons, List.map_cons, List.zip_cons_cons, putBatchV2]
      simp only [if_pos hbound, hslice, hlen, Option.bind_eq_bind, Option.bind_some, hrest]
      rfl

/-- **What the encoder appends**: the symbols, then each series with its references and the low 32
    bits of their packed size. It never panics. -/
theorem encodeV2Into_eq (batch : List TimeSeries) (buf : List UInt8) (scratch : V2Scratch)
    (hdistinct : (labelStrings batch).toFinset.card < 2 ^ 32) :
    ∃ scratch', encodeV2Into batch buf scratch = some
      (buf ++ (symbolTable batch).flatMap putSymbol ++ batch.flatMap (fun s =>
        putSeriesV2 s (refsOf (symbolTable batch) s)
          (packedLenOf (labelStrings batch) (stringsOf s.labels) % 2 ^ 32)), scratch') := by
  have hnew : V2Interned.After (labelStrings batch) [] ⟨.new, ⟨[], []⟩⟩ :=
    ⟨Symbols.after_new _, rfl, rfl⟩
  obtain ⟨st, hpass, hafter⟩ := passBatch_after hdistinct batch hnew (List.prefix_refl _)
  rw [List.getLast?_nil] at hpass
  rw [List.nil_append] at hafter
  have hput := putBatchV2_eq (symbolTable batch) batch
    (fun s => UInt32.ofNat (packedLenOf (labelStrings batch) (stringsOf s.labels))) []
  rw [List.nil_append, List.length_nil] at hput
  refine ⟨st.scratch, ?_⟩
  simp only [encodeV2Into, hpass, Option.bind_eq_bind, Option.bind_some, hafter.refs,
    hafter.packedLens, hafter.symbols.symbols]
  rw [show table "" (labelStrings batch) = symbolTable batch from rfl, hput]
  simp

/-! ## The bytes of a series -/

/-- The packed references field of a series, given the size announced for it. -/
def putRefs (refs : List UInt32) (packed : Nat) : List UInt8 :=
  if refs.isEmpty then []
  else 0x0a :: putVarint (UInt64.ofNat packed) ++
    refs.flatMap (fun reference => putVarint reference.toUInt64)

theorem TimeSeries.toV2_fields (symbols : List String) (s : TimeSeries) :
    (s.toV2 symbols).fields = refsField 1 (refsOf symbols s) ++ [s.valueField 3] := by
  unfold TimeSeries.toV2 TimeSeries.valueField TimeSeriesV2.fields refsOf
  cases s.histogram <;> simp

theorem TimeSeries.toV2_labelsRefs (symbols : List String) (s : TimeSeries) :
    (s.toV2 symbols).labelsRefs = refsOf symbols s := by
  unfold TimeSeries.toV2 refsOf
  cases s.histogram <;> rfl

theorem refs_payload_length (refs : List UInt32) :
    (refs.flatMap (fun reference => putVarint reference.toUInt64)).length
      = (refs.map (fun reference => varintLen reference.toUInt64)).sum := by
  simp only [List.length_flatMap, putVarint_length]

theorem putRefs_eq (symbols : List String) (s : TimeSeries) :
    putRefs (refsOf symbols s) (s.toV2 symbols).packedLen
      = encodeFields (refsField 1 (refsOf symbols s)) := by
  rw [refsField, encodeFields_scalarField, encodeField_len (by decide), List.flatMap_map,
    TimeSeriesV2.packedLen, s.toV2_labelsRefs, ← refs_payload_length]
  simp only [← putVarint_eq_varint]
  rfl

theorem putRefs_length (refs : List UInt32) (packed : Nat)
    (hpacked : (refs.map (fun reference => varintLen reference.toUInt64)).sum = packed) :
    (putRefs refs packed).length
      = if refs.isEmpty then 0 else 1 + varintLen (UInt64.ofNat packed) + packed := by
  refine length_ite_nil _ _ ?_
  rw [List.length_append, length_tag_varint, refs_payload_length, hpacked]

/-- With the packed size announced as it is, a series is its naive field. -/
theorem putSeriesV2_eq (symbols : List String) (s : TimeSeries) :
    putSeriesV2 s (refsOf symbols s) (s.toV2 symbols).packedLen
      = encodeField ⟨5, .len (encodeFields (s.toV2 symbols).fields)⟩ := by
  have hvalue : s.putValue 0x12 0x1a = encodeField (s.valueField 3) :=
    s.putValue_eq (show 3 < 16 by decide)
  have hbody : encodeFields (s.toV2 symbols).fields
      = putRefs (refsOf symbols s) (s.toV2 symbols).packedLen ++ s.putValue 0x12 0x1a := by
    rw [s.toV2_fields, encodeFields_append, encodeFields_cons, encodeFields_nil, List.append_nil,
      ← putRefs_eq, hvalue]
  have hlen := putRefs_length (refsOf symbols s) (s.toV2 symbols).packedLen
    (by rw [TimeSeriesV2.packedLen, s.toV2_labelsRefs])
  rw [encodeField_len (by decide), hbody, List.length_append, hlen, hvalue,
    ← s.valueWireLen_eq (by decide), ← hvalue, ← List.append_assoc]
  rfl

theorem putSymbol_eq (symbol : String) : putSymbol symbol = encodeField (symbolField symbol) := by
  rw [symbolField, encodeField_len (by decide)]
  rfl

theorem naiveV2_encode (batch : List TimeSeries) :
    (naiveV2 batch).encode = (symbolTable batch).flatMap putSymbol ++ batch.flatMap (fun s =>
      putSeriesV2 s (refsOf (symbolTable batch) s) (s.toV2 (symbolTable batch)).packedLen) := by
  rw [naiveV2, WriteRequestV2.encode, WriteRequestV2.fields, encodeFields_append, encodeFields_map,
    List.map_map, encodeFields_map, funext putSymbol_eq, funext (putSeriesV2_eq (symbolTable batch))]
  rfl

/-- The packed references of every series fit the 32 bits kept of their size. -/
def PackedFit (batch : List TimeSeries) : Prop :=
  ∀ s ∈ (naiveV2 batch).timeseries, s.packedLen < 2 ^ 32

instance PackedFit.decidable (batch : List TimeSeries) : Decidable (PackedFit batch) :=
  inferInstanceAs (Decidable (∀ s ∈ (naiveV2 batch).timeseries, s.packedLen < 2 ^ 32))

theorem packedLenOf_eq (batch : List TimeSeries) (s : TimeSeries) :
    packedLenOf (labelStrings batch) (stringsOf s.labels)
      = (s.toV2 (symbolTable batch)).packedLen := by
  rw [TimeSeriesV2.packedLen, s.toV2_labelsRefs, refsOf, List.map_map]
  rfl

/-- **The optimized encoder writes the naively interned request**, whatever the scratch held. -/
theorem encodeV2Into_eq_naiveV2 (batch : List TimeSeries) (buf : List UInt8) (scratch : V2Scratch)
    (hdistinct : (labelStrings batch).toFinset.card < 2 ^ 32) (hpacked : PackedFit batch) :
    ∃ scratch', encodeV2Into batch buf scratch
      = some (buf ++ (naiveV2 batch).encode, scratch') := by
  obtain ⟨scratch', hrun⟩ := encodeV2Into_eq batch buf scratch hdistinct
  refine ⟨scratch', ?_⟩
  have hseries : ∀ s ∈ batch, packedLenOf (labelStrings batch) (stringsOf s.labels) % 2 ^ 32
      = (s.toV2 (symbolTable batch)).packedLen := by
    intro s hs
    rw [packedLenOf_eq]
    exact Nat.mod_eq_of_lt (hpacked _ (List.mem_map_of_mem hs))
  have hbytes := List.flatMap_congr (fun s hs =>
    congrArg (putSeriesV2 s (refsOf (symbolTable batch) s)) (hseries s hs))
  rw [hrun, naiveV2_encode, List.append_assoc, hbytes]

/-! ## A series too wide for its packed size

`packed as u32` loses the high bits of a packed size of 4 GiB or more. One series with 2^31 equal
labels is enough: its size of exactly 2^32 is announced as 0. -/

/-- A series with `n` labels `a="b"` and a zero sample. -/
def wideSeries (n : Nat) : TimeSeries := ⟨List.replicate n ⟨"a", "b"⟩, ⟨.zero, 0⟩, 0, none⟩

theorem stringsOf_replicate_succ (n : Nat) :
    stringsOf (List.replicate (n + 1) ⟨"a", "b"⟩)
      = stringsOf (List.replicate n ⟨"a", "b"⟩) ++ ["a", "b"] := by
  simp [stringsOf, List.replicate_succ']

theorem symbolTable_wideSeries (n : Nat) : symbolTable [wideSeries (n + 1)] = ["", "a", "b"] := by
  have hstrings : ∀ n, labelStrings [wideSeries n] = stringsOf (List.replicate n ⟨"a", "b"⟩) :=
    fun n => List.append_nil _
  have htable : ∀ n, table "" (stringsOf (List.replicate (n + 1) ⟨"a", "b"⟩)) = ["", "a", "b"] := by
    intro n
    induction n with
    | zero => decide
    | succ n ih =>
        have ha : table "" (stringsOf (List.replicate (n + 1) ⟨"a", "b"⟩) ++ ["a"])
            = ["", "a", "b"] := by rw [table_append_of_mem (by rw [ih]; simp), ih]
        rw [stringsOf_replicate_succ, List.append_cons, table_append_of_mem (by rw [ha]; simp), ha]
  rw [symbolTable, hstrings, htable]

theorem distinct_wideSeries (n : Nat) :
    (labelStrings [wideSeries n]).toFinset.card < 2 ^ 32 := by
  have hsub : (labelStrings [wideSeries n]).toFinset ⊆ {"a", "b"} := by
    intro x hx
    simp only [labelStrings, stringsOf, wideSeries, List.flatMap_cons, List.flatMap_nil,
      List.append_nil, List.mem_toFinset, List.mem_flatMap, List.mem_replicate] at hx
    obtain ⟨l, ⟨-, rfl⟩, hx⟩ := hx
    simpa using hx
  have hcard := Finset.card_le_card hsub
  have htwo : ({"a", "b"} : Finset String).card = 2 := by decide
  omega

theorem refsOf_wideSeries (n : Nat) :
    refsOf ["", "a", "b"] (wideSeries n) = (List.replicate n [1, 2]).flatten := by
  have hrefs : ["a", "b"].map (symbolRef ["", "a", "b"]) = [1, 2] := by decide
  induction n with
  | zero => rfl
  | succ n ih =>
      have hstep : refsOf ["", "a", "b"] (wideSeries (n + 1))
          = ["a", "b"].map (symbolRef ["", "a", "b"]) ++ refsOf ["", "a", "b"] (wideSeries n) := rfl
      rw [hstep, hrefs, ih]
      rfl

theorem packedLen_wideSeries (n : Nat) :
    ((wideSeries n).toV2 ["", "a", "b"]).packedLen = 2 * n := by
  rw [TimeSeriesV2.packedLen, TimeSeries.toV2_labelsRefs, refsOf_wideSeries]
  have hone : varintLen (UInt32.toUInt64 1) = 1 := by decide
  have htwo : varintLen (UInt32.toUInt64 2) = 1 := by decide
  induction n with
  | zero => rfl
  | succ n ih =>
      rw [List.replicate_succ, List.flatten_cons, List.map_append, List.sum_append, ih]
      simp only [List.map_cons, List.map_nil, List.sum_cons, List.sum_nil, hone, htwo]
      omega

/-- What the encoder writes for the wide series. -/
theorem encodeV2Into_wideSeries (n : Nat) :
    ∃ scratch', encodeV2Into [wideSeries (n + 1)] [] ⟨[], []⟩ = some
      (["", "a", "b"].flatMap putSymbol ++ putSeriesV2 (wideSeries (n + 1))
        (List.replicate (n + 1) [1, 2]).flatten (2 * (n + 1) % 2 ^ 32), scratch') := by
  obtain ⟨scratch', hrun⟩ := encodeV2Into_eq [wideSeries (n + 1)] [] ⟨[], []⟩
    (distinct_wideSeries _)
  refine ⟨scratch', ?_⟩
  rw [hrun, symbolTable_wideSeries]
  simp only [List.nil_append, List.flatMap_singleton, packedLenOf_eq, symbolTable_wideSeries,
    refsOf_wideSeries, packedLen_wideSeries]

theorem putSeriesV2_wideSeries (n packed : Nat) :
    putSeriesV2 (wideSeries (n + 1)) (List.replicate (n + 1) [1, 2]).flatten packed
      = 0x2a :: (putVarint (UInt64.ofNat (1 + varintLen (UInt64.ofNat packed) + packed + 2)) ++
        (0x0a :: (putVarint (UInt64.ofNat packed) ++ ([1, 2] ++
          ((List.replicate n [1, 2]).flatten.flatMap (fun (r : UInt32) => putVarint r.toUInt64) ++
            [0x12, 0x00]))))) := by
  have hvalue : (wideSeries (n + 1)).putValue 0x12 0x1a = [0x12, 0x00] := by
    simp only [wideSeries, TimeSeries.putValue]
    decide
  have hlen : (wideSeries (n + 1)).valueWireLen = 0 := by
    simp only [wideSeries, TimeSeries.valueWireLen]
    decide
  have hrefs : ([1, 2] : List UInt32).flatMap (fun r => putVarint r.toUInt64) = [1, 2] := by decide
  have hzero : 1 + varintLen (UInt64.ofNat 0) + 0 = 2 := by decide
  rw [putSeriesV2, hvalue, hlen, hzero, List.replicate_succ, List.flatten_cons]
  simp only [List.flatMap_append, hrefs]
  simp

/-- 2^31 labels: packed references of exactly 2^32 bytes. -/
def wideBatch : List TimeSeries := [wideSeries (2147483647 + 1)]

theorem putVarint_wideBatch_announced :
    ∀ packed, packed = 2 * (2147483647 + 1) % 2 ^ 32 →
      putVarint (UInt64.ofNat (1 + varintLen (UInt64.ofNat packed) + packed + 2)) = [4] := by
  rintro _ rfl
  decide +kernel

theorem putVarint_wideBatch_actual :
    ∀ packed, packed = 2 * (2147483647 + 1) →
      putVarint (UInt64.ofNat (1 + varintLen (UInt64.ofNat packed) + packed + 2))
        = [0x88, 0x80, 0x80, 0x80, 0x10] := by
  rintro _ rfl
  decide +kernel

/-- The sizes announced for the series already differ: 4 against 2^32 + 8. -/
theorem encodeV2Into_wideBatch_ne_naiveV2 :
    (labelStrings wideBatch).toFinset.card < 2 ^ 32 ∧
      ∃ out scratch', encodeV2Into wideBatch [] ⟨[], []⟩ = some (out, scratch') ∧
        out ≠ [] ++ (naiveV2 wideBatch).encode := by
  obtain ⟨scratch', hrun⟩ := encodeV2Into_wideSeries 2147483647
  refine ⟨distinct_wideSeries _, _, scratch', hrun, fun heq => ?_⟩
  have hnaive : (naiveV2 wideBatch).encode = ["", "a", "b"].flatMap putSymbol ++
      putSeriesV2 (wideSeries (2147483647 + 1)) (List.replicate (2147483647 + 1) [1, 2]).flatten
        (2 * (2147483647 + 1)) := by
    rw [naiveV2_encode, wideBatch, symbolTable_wideSeries, List.flatMap_singleton,
      refsOf_wideSeries, packedLen_wideSeries]
  rw [List.nil_append, hnaive] at heq
  have hseries := List.append_cancel_left heq
  rw [putSeriesV2_wideSeries, putSeriesV2_wideSeries, putVarint_wideBatch_announced _ rfl,
    putVarint_wideBatch_actual _ rfl] at hseries
  have hdiffer : ∀ xs ys : List UInt8,
      0x2a :: ([4] ++ xs) ≠ 0x2a :: ([0x88, 0x80, 0x80, 0x80, 0x10] ++ ys) := by simp
  exact hdiffer _ _ hseries

/-- A series announced as empty of references ends inside them: what follows starts with the key
    byte 1, which names no field. -/
theorem putSeriesV2_wideSeries_zero (n : Nat) :
    ∃ tail, putSeriesV2 (wideSeries (n + 2)) (List.replicate (n + 2) [1, 2]).flatten 0
      = encodeField ⟨5, .len [0x0a, 0, 1, 2]⟩ ++ 1 :: tail := by
  refine ⟨2 :: ((List.replicate n [1, 2]).flatten.flatMap
    (fun (r : UInt32) => putVarint r.toUInt64) ++ [0x12, 0x00]), ?_⟩
  have hheader : putVarint (UInt64.ofNat (1 + varintLen (UInt64.ofNat 0) + 0 + 2)) = [4] := by
    decide
  have hzero : putVarint (UInt64.ofNat 0) = [0] := by decide
  have hfield : encodeField ⟨5, .len [0x0a, 0, 1, 2]⟩ = [0x2a, 4, 0x0a, 0, 1, 2] := by decide
  have hrefs : ([1, 2] : List UInt32).flatMap (fun r => putVarint r.toUInt64) = [1, 2] := by decide
  rw [putSeriesV2_wideSeries, hheader, hzero, hfield, List.replicate_succ, List.flatten_cons,
    List.flatMap_append, hrefs]
  rfl

/-- A 2.0 receiver cannot read what the encoder wrote for the wide batch. -/
theorem encodeV2Into_wideBatch_not_decoded :
    (labelStrings wideBatch).toFinset.card < 2 ^ 32 ∧
      ∃ out scratch', encodeV2Into wideBatch [] ⟨[], []⟩ = some (out, scratch') ∧
        WriteRequestV2.decode out = none := by
  obtain ⟨scratch', hrun⟩ := encodeV2Into_wideSeries 2147483647
  refine ⟨distinct_wideSeries _, _, scratch', hrun, ?_⟩
  obtain ⟨tail, htail⟩ := putSeriesV2_wideSeries_zero 2147483646
  have hsymbols : ["", "a", "b"].flatMap putSymbol
      = encodeFields [symbolField "", symbolField "a", symbolField "b"] := by
    rw [funext putSymbol_eq]
    rfl
  -- the length field wraps to zero, and the reader takes the references for fields
  have hpacked : 2 * (2147483647 + 1) % 2 ^ 32 = 0 := by decide
  have hwf : ∀ f ∈ [symbolField "", symbolField "a", symbolField "b", ⟨5, .len [0x0a, 0, 1, 2]⟩],
      f.WellFormed := Numbered.wellFormed (by simp [symbolField]) (by decide)
  have hout : ["", "a", "b"].flatMap putSymbol ++ putSeriesV2 (wideSeries (2147483646 + 2))
      (List.replicate (2147483646 + 2) [1, 2]).flatten 0
      = encodeFields [symbolField "", symbolField "a", symbolField "b", ⟨5, .len [0x0a, 0, 1, 2]⟩]
        ++ 1 :: tail := by
    rw [htail, hsymbols]
    simp [encodeFields]
  have hnone := decodeFields_append_of_none _ hwf (List.cons_ne_nil 1 tail)
    (by simp [decodeField, readVarint, readDigits])
  rw [hpacked]
  have hdecode : WriteRequestV2.decode (["", "a", "b"].flatMap putSymbol ++
      putSeriesV2 (wideSeries (2147483646 + 2)) (List.replicate (2147483646 + 2) [1, 2]).flatten 0)
      = none := by
    rw [WriteRequestV2.decode, decodeMessage, hout, hnone]
    rfl
  exact hdecode

/-- A small batch: two series of two labels, the second sharing strings with the first. -/
def sampleBatch : List TimeSeries :=
  [⟨[⟨"__name__", "up"⟩, ⟨"job", ""⟩], ⟨.negZero, -1⟩, 0, none⟩,
    ⟨[⟨"__name__", "down"⟩, ⟨"job", "up"⟩], ⟨.zero, 1000⟩, 7, none⟩]

theorem encodeV2Into_eq_naiveV2_sampleBatch :
    (labelStrings sampleBatch).toFinset.card < 2 ^ 32 ∧ PackedFit sampleBatch ∧
      ∃ scratch', encodeV2Into sampleBatch [9] ⟨[1, 2, 3], [4]⟩
        = some ([9] ++ (naiveV2 sampleBatch).encode, scratch') :=
  ⟨by decide +kernel, by decide +kernel,
    encodeV2Into_eq_naiveV2 sampleBatch [9] ⟨[1, 2, 3], [4]⟩ (by decide +kernel)
      (by decide +kernel)⟩

/-! ## The two protocols agree -/

theorem symbolRef_toNat {symbols : List String} (hlen : symbols.length ≤ 2 ^ 32) {text : String}
    (htext : text ∈ symbols) : (symbolRef symbols text).toNat = symbols.idxOf text := by
  have hidx := List.idxOf_lt_length_of_mem htext
  rw [symbolRef, UInt32.toNat_ofNat']
  exact Nat.mod_eq_of_lt (by omega)

/-- Resolving a series' references gives its labels back. -/
theorem resolveLabels_stringsOf {symbols : List String} (hlen : symbols.length ≤ 2 ^ 32)
    (labels : List Label) (hmem : ∀ text ∈ stringsOf labels, text ∈ symbols) :
    resolveLabels symbols ((stringsOf labels).map (symbolRef symbols)) = some labels := by
  have hget : ∀ text ∈ stringsOf labels,
      symbols[(symbolRef symbols text).toNat]? = some text := by
    intro text htext
    have hidx := List.idxOf_lt_length_of_mem (hmem text htext)
    rw [symbolRef_toNat hlen (hmem text htext), List.getElem?_eq_getElem hidx, List.getElem_idxOf]
  induction labels with
  | nil => rfl
  | cons l rest ih =>
      rw [stringsOf_cons] at hmem hget ⊢
      have hrest := ih (fun t ht => hmem t (by simp [ht])) (fun t ht => hget t (by simp [ht]))
      simp [resolveLabels, hget l.name (by simp), hget l.value (by simp), hrest]

theorem length_symbolTable {batch : List TimeSeries}
    (hdistinct : (labelStrings batch).toFinset.card < 2 ^ 32) :
    (symbolTable batch).length ≤ 2 ^ 32 := by
  have hle := length_table_le "" (labelStrings batch)
  rw [symbolTable]
  omega

theorem mem_symbolTable {batch : List TimeSeries} {s : TimeSeries} (hs : s ∈ batch) :
    ∀ text ∈ stringsOf s.labels, text ∈ symbolTable batch := fun _ htext =>
  mem_table.2 (Or.inr (List.mem_flatMap.2 ⟨s, hs, htext⟩))

/-- Whether its zeros keep their sign changes neither a series' references nor their meaning. -/
theorem TimeSeries.resolve_toV2 {symbols : List String} (hlen : symbols.length ≤ 2 ^ 32)
    (s : TimeSeries) (hmem : ∀ text ∈ stringsOf s.labels, text ∈ symbols) :
    (s.toV2 symbols).unsignZero.resolve symbols = some s.toPb.unsignZero := by
  have hresolve := resolveLabels_stringsOf hlen s.labels hmem
  unfold TimeSeries.toV2 TimeSeries.toPb
  cases s.histogram <;>
    simp [TimeSeriesV2.resolve, TimeSeriesV2.unsignZero, PbTimeSeries.unsignZero, hresolve]

theorem naiveV2_resolve {batch : List TimeSeries}
    (hdistinct : (labelStrings batch).toFinset.card < 2 ^ 32) :
    (naiveV2 batch).unsignZero.resolve = some (WriteRequest.toPb ⟨batch⟩).unsignZero := by
  have hseries : ∀ series : List TimeSeries, (∀ s ∈ series, s ∈ batch) →
      ((series.map (TimeSeries.toV2 (symbolTable batch))).map TimeSeriesV2.unsignZero).mapM
        (TimeSeriesV2.resolve (symbolTable batch))
        = some ((series.map TimeSeries.toPb).map PbTimeSeries.unsignZero) := by
    intro series hsub
    induction series with
    | nil => rfl
    | cons s rest ih =>
        have hhead := s.resolve_toV2 (length_symbolTable hdistinct)
          (mem_symbolTable (hsub s (List.mem_cons_self ..)))
        have htail := ih (fun t ht => hsub t (List.mem_cons_of_mem _ ht))
        rw [List.map_cons, List.map_cons, List.mapM_cons, hhead, Option.bind_eq_bind,
          Option.bind_some, htail]
        rfl
  have h := hseries batch (fun _ hs => hs)
  simp only [WriteRequestV2.resolve, WriteRequestV2.unsignZero, naiveV2, h]
  rfl

theorem naiveV2_refsInRange {batch : List TimeSeries}
    (hdistinct : (labelStrings batch).toFinset.card < 2 ^ 32) :
    (naiveV2 batch).unsignZero.RefsInRange := by
  intro v hv reference href
  obtain ⟨w, hw, rfl⟩ := List.mem_map.1 hv
  obtain ⟨s, hs, rfl⟩ := List.mem_map.1 hw
  have hrefs : (s.toV2 (symbolTable batch)).unsignZero.labelsRefs
      = refsOf (symbolTable batch) s := s.toV2_labelsRefs _
  rw [hrefs] at href
  obtain ⟨text, htext, rfl⟩ := List.mem_map.1 href
  have hmem := mem_symbolTable hs text htext
  rw [symbolRef_toNat (length_symbolTable hdistinct) hmem]
  exact List.idxOf_lt_length_of_mem hmem

/-- **Both protocols carry the same series.** A batch encoded either way is decoded in full, and
    the 2.0 message with its references resolved is the 1.0 message. The two length bounds are the
    ones every byte vector obeys. -/
theorem encodeInto_agrees_encodeV2Into (batch : List TimeSeries) (buf₁ buf₂ : List UInt8)
    (scratch : V2Scratch) (hdistinct : (labelStrings batch).toFinset.card < 2 ^ 32)
    (hpacked : PackedFit batch)
    (hfit₁ : (WriteRequest.encodeInto ⟨batch⟩ buf₁).length < 2 ^ 64)
    (hfit₂ : ∀ out ∈ encodeV2Into batch buf₂ scratch, out.1.length < 2 ^ 64) :
    ∃ bytes₁ bytes₂ scratch' r₁ r₂,
      WriteRequest.encodeInto ⟨batch⟩ buf₁ = buf₁ ++ bytes₁ ∧
      encodeV2Into batch buf₂ scratch = some (buf₂ ++ bytes₂, scratch') ∧
      PbWriteRequest.decode bytes₁ = some r₁ ∧ WriteRequestV2.decode bytes₂ = some r₂ ∧
      r₂.resolve = some r₁ ∧ r₂.RefsInRange := by
  obtain ⟨scratch', hrun⟩ := encodeV2Into_eq_naiveV2 batch buf₂ scratch hdistinct hpacked
  obtain ⟨bytes₁, happend, hdecode₁⟩ := WriteRequest.decode_encodeInto ⟨batch⟩ buf₁ hfit₁
  have hlen := hfit₂ _ hrun
  rw [List.length_append] at hlen
  have hdecode₂ := (naiveV2 batch).decode_encode (by omega)
  exact ⟨bytes₁, _, scratch', _, _, happend, hrun, hdecode₁, hdecode₂, naiveV2_resolve hdistinct,
    naiveV2_refsInRange hdistinct⟩

theorem encodeInto_agrees_encodeV2Into_sampleBatch :
    ∃ bytes₁ bytes₂ scratch' r₁ r₂,
      WriteRequest.encodeInto ⟨sampleBatch⟩ [] = [] ++ bytes₁ ∧
      encodeV2Into sampleBatch [9] ⟨[5], [6]⟩ = some ([9] ++ bytes₂, scratch') ∧
      PbWriteRequest.decode bytes₁ = some r₁ ∧ WriteRequestV2.decode bytes₂ = some r₂ ∧
      r₂.resolve = some r₁ ∧ r₂.RefsInRange :=
  encodeInto_agrees_encodeV2Into sampleBatch [] [9] ⟨[5], [6]⟩ (by decide +kernel)
    (by decide +kernel) (by decide +kernel) (by decide +kernel)

end PromScrape
