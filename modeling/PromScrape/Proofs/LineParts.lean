import PromScrape.Proofs.ParserRoundTrip

set_option autoImplicit false

/-! # The identity and the value token of a line

`parse_line` cuts two pieces of raw text out of a sample line: the identity, which it hashes, and the
value token, which it hands to `parse_value`. Labels and hash depend on the first alone; which second
ones are accepted is where `parse_value` parts from `f64::from_str`. -/

namespace PromScrape

open Utf8 (encode utf8Bytes)
open Scan (At slice)
open Numerals (f64FromStr f64FromStr_eq isSign unsigned unsigned_sign takeSign_sign
  takeSign_of_not_sign)

/-! ## The pieces -/

/-- The raw text that `parse_line` cuts out of a sample line. -/
structure LineParts where
  /-- `bytes[name_start..identity_end]`. -/
  identity : List UInt8
  valueToken : String
deriving DecidableEq, Repr

/-- The pieces of the sample line whose first non-blank byte is at `nameStart`. -/
def sampleParts (bytes : List UInt8) (nameStart stop lineNo : Nat) : Except ParseFail LineParts := do
  let nameEnd ← skip bytes stop (isNameContinue · true) (nameStart + 1)
  let metricName := strFrom bytes nameStart nameEnd
  let i ← skip bytes stop isSpace nameEnd
  let (identityEnd, _, i) ←
    parseLineLabels bytes stop lineNo nameEnd i [⟨metricNameLabel, metricName⟩]
  let tokEnd ← skip bytes stop (!isSpace ·) i
  .ok ⟨slice bytes nameStart identityEnd, strFrom bytes i tokEnd⟩

/-- The pieces of the sample line at `start..stop`. -/
def lineParts (bytes : List UInt8) (start stop lineNo : Nat) : Except ParseFail LineParts := do
  let i ← skip bytes stop isSpace start
  sampleParts bytes i stop lineNo

/-- The pieces of `line`, wherever it stands in a body. -/
def linePartsWithin (before line after : String) (lineNo : Nat) : Except ParseFail LineParts :=
  lineParts (utf8Bytes (before ++ (line ++ after))) (utf8Bytes before).length
    ((utf8Bytes before).length + (utf8Bytes line).length) lineNo

theorem Agrees.of_some {α β : Type} {line : Nat} {R : α → β → Prop} {x : Except ParseFail α} {b : β}
    (h : Agrees line R x (some b)) : ∃ a, x = .ok a ∧ R a b := by
  rcases x with (_ | e) | a
  · exact h.elim
  · exact h.elim
  · exact ⟨a, rfl, h⟩

theorem sampleParts_eq {bytes : List UInt8} {stop i : Nat} {cs : List Char} {s : SampleText}
    (h : At bytes stop i cs) (hread : readSample cs = some s) (lineNo : Nat) :
    ∃ tok, sampleParts bytes i stop lineNo = .ok ⟨encode s.identity, tok⟩ ∧
      parseValue tok = some s.value := by
  cases cs with
  | nil => cases hread
  | cons c cs =>
      rw [readSample] at hread
      split at hread
      · cases hread
      next hhead =>
      simp only [Option.bind_eq_bind, Option.bind_eq_some_iff, Prod.exists,
        Option.some.injEq] at hread
      obtain ⟨labels, after, cs₁, hpart, value, cs₂, hvalue, timestamp, cs₃, -, -, -, rfl⟩ := hread
      obtain ⟨hskipName, hname⟩ := skipName_at h (by simpa using hhead)
      have hafter := hname.drop
      obtain ⟨j, hskip, hat⟩ := skipBlanks_at hafter
      have hlabels := @parseLineLabels_agrees bytes stop j lineNo _ _
        (String.ofList (c :: cs.takeWhile (isNameTail true))) hafter hat
      rw [hpart] at hlabels
      obtain ⟨⟨identityEnd, _, k⟩, hparse, hidentity, -, hrest⟩ := hlabels.of_some
      obtain ⟨_, ident, pairs, -, hident, -, -⟩ := readLabelPart_sound hpart
      have hline := cons_eq_identity_append (c := c) hident
      have hslice := slice_between (hline ▸ h) hidentity
      rw [readValue] at hvalue
      split at hvalue
      · cases hvalue
      obtain ⟨v, hv, heq⟩ := Option.map_eq_some_iff.mp hvalue
      obtain ⟨rfl, -⟩ := Prod.mk.inj heq
      refine ⟨String.ofList (cs₁.takeWhile (!isBlank ·)), ?_, hv⟩
      obtain ⟨tokEnd, htoken, htext, -⟩ := token_at hrest
      rw [sampleParts, hskipName, ok_bind, strFrom_at hname]
      dsimp only
      rw [hskip, ok_bind, hparse, ok_bind]
      dsimp only
      rw [htoken, ok_bind, hslice, take_identity hident, htext]

/-- **The pieces of an accepted line**: the grammar's identity, and a token that denotes the
    sample's value. -/
theorem linePartsWithin_of_sample {line : String} {s : SampleText} (h : SampleLine line.toList s)
    (before after : String) (lineNo : Nat) :
    ∃ tok, linePartsWithin before line after lineNo = .ok ⟨encode s.identity, tok⟩ ∧
      parseValue tok = some s.value := by
  have hread := readLine_eq_sample_iff.mpr h
  obtain ⟨i, hskip, hat⟩ := skipBlanks_at (at_within before line after)
  rw [readLine] at hread
  split at hread
  · cases hread
  next c t hc =>
  split at hread
  · cases hread
  obtain ⟨s', hs, heq⟩ := Option.map_eq_some_iff.mp hread
  cases heq
  rw [linePartsWithin, lineParts, hskip, ok_bind]
  exact sampleParts_eq hat (hc ▸ hs) lineNo

/-! ## The identity -/

/-- What follows the identity cannot be read as more of the metric name: there is a blank, or the
    identity ends with a label set, or the value starts with no character of a name. -/
def ValueApart (identity gap value : List Char) : Prop :=
  gap ≠ [] ∨ '}' ∈ identity ∨ NotStarting (isNameTail true) value

/-- A line around an identity: leading blanks before it; blanks, a value, and possibly a timestamp
    and an exemplar after it. -/
inductive Surrounds (identity : List Char) : List Char → Prop where
  | mk {b gap value tail : List Char} {v : F64} {timestamp : Option Int64} (hb : Blanks b)
      (hgap : Blanks gap) (htok : IsToken value)
      (hvalue : parseValue (String.ofList value) = some v) (htail : TailText tail timestamp)
      (hapart : ValueApart identity gap value) :
      Surrounds identity (b ++ (identity ++ (gap ++ (value ++ tail))))

theorem brace_notMem_name {name : List Char} (h : IsName true name) : '}' ∉ name := by
  obtain ⟨c, rest, rfl, hhead, hall⟩ := h
  intro hmem
  rcases List.mem_cons.mp hmem with rfl | hmem
  · revert hhead
    decide
  · have htail := hall _ hmem
    revert htail
    decide

/-- A value token does not open a label set. -/
theorem notStarting_brace {value : List Char} {v : F64}
    (h : parseValue (String.ofList value) = some v) : NotStarting (· == '{') value := by
  intro c hc
  have hchar := (parseValue_chars h).2 c (by
    rw [String.toList_ofList]
    exact List.mem_of_mem_head? hc)
  by_contra hbrace
  obtain rfl : c = '{' := by simpa using hbrace
  revert hchar
  decide

theorem Blanks.notStarting_name {gap : List Char} (h : Blanks gap) :
    NotStarting (isNameTail true) gap := by
  have hstop : NotStarting (isNameTail true) (gap ++ []) :=
    notStarting_blanks_append h notStarting_nil
  rwa [List.append_nil] at hstop

/-- A sample line is its identity and what surrounds it. -/
theorem SampleLine.surrounds {line : List Char} {s : SampleText} (h : SampleLine line s) :
    Surrounds s.identity line := by
  obtain @⟨b, name, part, _, value, tail, _, v, _, hb, hname, hlongest, hpart, -, htok, hvalue,
    htail⟩ := h
  cases hpart with
  | absent hgap hbrace =>
      dsimp only
      rw [List.append_nil]
      refine .mk hb hgap htok hvalue htail ?_
      by_cases hne : part = []
      · subst hne
        exact .inr (.inr hlongest)
      · exact .inl hne
  | @present b₁ inner b₂ _ h₁ hinner h₂ =>
      have hline : Surrounds (name ++ (b₁ ++ '{' :: (inner ++ ['}']))) _ :=
        .mk hb h₂ htok hvalue htail (.inr (.inl (by simp)))
      simpa only [List.append_assoc, List.cons_append, List.nil_append] using hline

/-- **The grammar reads the same name and labels off an identity in any surroundings.** -/
theorem SampleLine.resurround {line line' : List Char} {s : SampleText} (h : SampleLine line s)
    (h' : Surrounds s.identity line') :
    ∃ v timestamp, SampleLine line' ⟨s.name, s.identity, s.pairs, v, timestamp⟩ := by
  obtain ⟨-, hname, -, hpart, hpairs, -, -, -⟩ := h
  obtain @⟨b, gap, value, tail, v, timestamp, hb, hgap, htok, hvalue, htail, hapart⟩ := h'
  refine ⟨v, timestamp, ?_⟩
  cases hpart with
  | absent hblank hbrace =>
      rw [List.append_nil] at hapart
      have hstop : NotStarting (isNameTail true) (gap ++ value) := by
        rcases hapart with hne | hmem | hstart
        · exact hgap.notStarting_name.append hne
        · exact absurd hmem (brace_notMem_name hname)
        · exact notStarting_blanks_append hgap hstart
      have hline := SampleLine.mk hb hname hstop (.absent hgap (notStarting_brace hvalue)) hpairs htok
        hvalue htail
      simpa only [List.append_nil] using hline
  | @present b₁ inner b₂ _ h₁ hinner h₂ =>
      -- the label set stands between the name and everything that may change
      have hstop : NotStarting (isNameTail true) (b₁ ++ '{' :: (inner ++ '}' :: gap) ++ value) := by
        rw [List.append_assoc, List.cons_append]
        exact notStarting_blanks_append h₁ (notStarting_cons.mpr (by decide))
      have hline := SampleLine.mk hb hname hstop (.present h₁ hinner hgap) hpairs htok hvalue htail
      simpa only [List.append_assoc, List.cons_append, List.nil_append] using hline

/-- **The identity determines the name and the labels.** Both lines are reread with one and the same
    text around the identity. -/
theorem SampleLine.parts_eq_of_identity {line line' : List Char} {s s' : SampleText}
    (h : SampleLine line s) (h' : SampleLine line' s') (heq : s.identity = s'.identity) :
    s.name = s'.name ∧ s.pairs = s'.pairs := by
  have hzero : (parseValue (String.ofList ['0'])).isSome := by decide
  obtain ⟨v, hv⟩ := Option.isSome_iff_exists.mp hzero
  have hnone : Blanks [] := by simp [Blanks]
  have hsame : Surrounds s.identity ([] ++ (s.identity ++ ([' '] ++ (['0'] ++ [])))) :=
    .mk hnone (by simp [Blanks, isBlank]) (by simp [IsToken, isBlank]) hv (.bare (.blank hnone))
      (.inl (List.cons_ne_nil _ _))
  obtain ⟨v₁, t₁, hread⟩ := h.resurround hsame
  obtain ⟨v₂, t₂, hread'⟩ := h'.resurround (heq ▸ hsame)
  rw [← readLine_eq_sample_iff] at hread hread'
  rw [← heq, hread, Option.some.injEq, Option.some.injEq, SampleText.mk.injEq] at hread'
  exact ⟨hread'.1, hread'.2.2.1⟩

/-- An accepted line, its pieces and what was made of them. -/
theorem parseLineWithin_parts {before line after : String} {lineNo : Nat}
    {defaultTimestampMs : Int64} {honorTimestamps : Bool} {series : TimeSeries}
    (h : parseLineWithin before line after lineNo defaultTimestampMs honorTimestamps =
      .ok (some series)) :
    ∃ s tok, SampleLine line.toList s ∧ series = s.series defaultTimestampMs honorTimestamps ∧
      linePartsWithin before line after lineNo = .ok ⟨encode s.identity, tok⟩ ∧
      parseValue tok = some s.value := by
  have hagrees := parseLine_agrees (at_within before line after) lineNo defaultTimestampMs
    honorTimestamps
  rw [parseLineWithin] at h
  rw [h] at hagrees
  cases hread : readLine line.toList with
  | none => rw [hread] at hagrees; exact hagrees.elim
  | some o =>
      rw [hread] at hagrees
      have hseries : some series = o.map (·.series defaultTimestampMs honorTimestamps) := hagrees
      obtain ⟨s, rfl, hs⟩ := Option.map_eq_some_iff.mp hseries.symm
      have hline := readLine_eq_sample_iff.mp hread
      obtain ⟨tok, hparts, hvalue⟩ := linePartsWithin_of_sample hline before after lineNo
      exact ⟨s, tok, hline, hs.symm, hparts, hvalue⟩

theorem parseLineWithin_of_sample {line : String} {s : SampleText} (h : SampleLine line.toList s)
    (before after : String) (lineNo : Nat) (defaultTimestampMs : Int64) (honorTimestamps : Bool) :
    parseLineWithin before line after lineNo defaultTimestampMs honorTimestamps =
      .ok (some (s.series defaultTimestampMs honorTimestamps)) := by
  have hagrees := parseLine_agrees (at_within before line after) lineNo defaultTimestampMs
    honorTimestamps
  rw [readLine_eq_sample_iff.mpr h] at hagrees
  obtain ⟨a, hparse, rfl⟩ := hagrees.of_some
  exact hparse

/-- **Labels and hash are functions of the identity slice.** Any accepted line with the same slice
    has the same labels and the same hash, and so has any line that puts the identity into other
    surroundings. -/
theorem identity_determines_series (before line after : String) (lineNo : Nat)
    (defaultTimestampMs : Int64) (honorTimestamps : Bool) {series : TimeSeries} {parts : LineParts}
    (h : parseLineWithin before line after lineNo defaultTimestampMs honorTimestamps =
      .ok (some series))
    (hparts : linePartsWithin before line after lineNo = .ok parts) :
    series.identityHash = (FxHasher.default.write parts.identity).finish ∧
    (∀ before' line' after' lineNo' defaultTimestampMs' honorTimestamps' series' parts',
      parseLineWithin before' line' after' lineNo' defaultTimestampMs' honorTimestamps' =
        .ok (some series') →
      linePartsWithin before' line' after' lineNo' = .ok parts' →
      parts'.identity = parts.identity →
      series'.labels = series.labels ∧ series'.identityHash = series.identityHash) ∧
    ∃ identity, parts.identity = encode identity ∧ Surrounds identity line.toList ∧
      ∀ before' line' after' lineNo' defaultTimestampMs' honorTimestamps',
        Surrounds identity line'.toList →
        ∃ series' parts',
          parseLineWithin before' line' after' lineNo' defaultTimestampMs' honorTimestamps' =
            .ok (some series') ∧
          linePartsWithin before' line' after' lineNo' = .ok parts' ∧
          parts'.identity = parts.identity ∧ series'.labels = series.labels ∧
          series'.identityHash = series.identityHash := by
  obtain ⟨s, tok, hline, rfl, hcut, -⟩ := parseLineWithin_parts h
  rw [hcut] at hparts
  cases hparts
  refine ⟨rfl, ?_, s.identity, rfl, hline.surrounds, ?_⟩
  · intro before' line' after' lineNo' ts' honor' series' parts' h' hparts' heq
    obtain ⟨s', tok', hline', rfl, hcut', -⟩ := parseLineWithin_parts h'
    rw [hcut'] at hparts'
    cases hparts'
    have hidentity : s'.identity = s.identity := Utf8.encode_injective heq
    obtain ⟨hname, hpairs⟩ := hline'.parts_eq_of_identity hline hidentity
    simp only [SampleText.series, hname, hpairs, hidentity, and_self]
  · intro before' line' after' lineNo' ts' honor' hsurrounds
    obtain ⟨v, timestamp, hline'⟩ := hline.resurround hsurrounds
    obtain ⟨tok', hcut', -⟩ := linePartsWithin_of_sample hline' before' after' lineNo'
    exact ⟨_, _, parseLineWithin_of_sample hline' before' after' lineNo' ts' honor', hcut', rfl, rfl,
      rfl⟩

/-- A line with a label set, an escape and an exemplar. -/
theorem identity_determines_series_labelled :
    ∃ series, parseLineWithin "# help\n" "up \x7ba=\"\\n\"\x7d 1 # x" "\n" 2 0 true =
        .ok (some series) ∧
      series.identityHash =
        (FxHasher.default.write (utf8Bytes "up \x7ba=\"\\n\"\x7d")).finish := by
  refine ⟨_, rfl, ?_⟩
  have hparts : linePartsWithin "# help\n" "up \x7ba=\"\\n\"\x7d 1 # x" "\n" 2 =
      .ok ⟨utf8Bytes "up \x7ba=\"\\n\"\x7d", "1"⟩ := by decide
  exact (identity_determines_series "# help\n" "up \x7ba=\"\\n\"\x7d 1 # x" "\n" 2 0 true rfl
    hparts).1

/-- Without a blank the value can run into the name: `up+5 7` and `up5 7` differ in the value alone,
    `up 5 7` and `up5 7` in the blank, and yet in the series. -/
theorem identity_changes_with_value :
    ∃ series series', parseLineWithin "" "up+5 7" "" 1 0 true = .ok (some series) ∧
      parseLineWithin "" "up5 7" "" 1 0 true = .ok (some series') ∧
      linePartsWithin "" "up+5 7" "" 1 = .ok ⟨utf8Bytes "up", "+5"⟩ ∧
      linePartsWithin "" "up 5 7" "" 1 = .ok ⟨utf8Bytes "up", "5"⟩ ∧
      linePartsWithin "" "up5 7" "" 1 = .ok ⟨utf8Bytes "up5", "7"⟩ ∧
      series.labels ≠ series'.labels ∧ series.identityHash ≠ series'.identityHash :=
  ⟨_, _, rfl, rfl, by decide, by decide, by decide, by decide, by decide⟩

/-! ## The value token -/

/-- A plus in front of a literal that has a sign already. -/
def DoubleSigned (tok : String) : Prop :=
  ∃ c rest, tok.toList = '+' :: c :: rest ∧ isSign c = true ∧ (unsigned rest).isSome = true

/-- The two attempts of `parse_value`. -/
theorem parseValue_eq_or (tok : String) :
    parseValue tok = (f64FromStr tok).or ((stripPlus tok).bind f64FromStr) := by
  rw [parseValue]
  split
  · next hempty =>
      subst hempty
      rfl
  · cases f64FromStr tok <;> rfl

theorem stripPlus_plus {tok : String} {rest : List Char} (htok : tok.toList = '+' :: rest) :
    stripPlus tok = some (String.ofList rest) := by
  simp only [stripPlus, htok]

theorem stripPlus_eq_some {tok rest : String} (h : stripPlus tok = some rest) :
    tok.toList = '+' :: rest.toList := by
  rw [stripPlus] at h
  split at h
  · next tail htail =>
      cases h
      rw [htail, String.toList_ofList]
  · cases h

/-- Two signs are too many for `f64::from_str`. -/
theorem f64FromStr_two_signs {tok : String} {a c : Char} {rest : List Char}
    (htok : tok.toList = a :: c :: rest) (ha : isSign a = true) (hc : isSign c = true) :
    f64FromStr tok = none := by
  rw [f64FromStr_eq, htok, takeSign_sign ha, unsigned_sign hc]
  rfl

/-- The second attempt reads the literal behind the plus, sign and all. -/
theorem parseValue_two_signs {tok : String} {c : Char} {rest : List Char}
    (htok : tok.toList = '+' :: c :: rest) (hc : isSign c = true) :
    parseValue tok = (unsigned rest).map fun x => if c == '-' then x.neg else x := by
  rw [parseValue_eq_or, f64FromStr_two_signs htok (by decide) hc, stripPlus_plus htok, Option.none_or,
    Option.bind_some, f64FromStr_eq, String.toList_ofList, takeSign_sign hc]

/-- Without a second sign both attempts read the same literal. -/
theorem parseValue_one_sign {tok : String}
    (htok : ∀ c rest, tok.toList = '+' :: c :: rest → isSign c = false) :
    parseValue tok = f64FromStr tok := by
  rw [parseValue_eq_or]
  cases hstrip : stripPlus tok with
  | none => rw [Option.bind_none, Option.or_none]
  | some rest =>
      have hlist := stripPlus_eq_some hstrip
      have hsame : f64FromStr rest = f64FromStr tok := by
        have hhead : ∀ c ∈ rest.toList.head?, isSign c = false := by
          intro c hc
          obtain ⟨tail, htail⟩ := List.head?_eq_some_iff.mp hc
          exact htok c tail (by rw [hlist, htail])
        rw [f64FromStr_eq, f64FromStr_eq, hlist, takeSign_of_not_sign hhead,
          takeSign_sign (show isSign '+' = true by decide)]
        rfl
      rw [Option.bind_some, hsame, Option.or_self]

theorem parseValue_eq_f64FromStr_iff (tok : String) :
    parseValue tok = f64FromStr tok ↔ ¬ DoubleSigned tok := by
  by_cases htwo : ∃ c rest, tok.toList = '+' :: c :: rest ∧ isSign c = true
  · obtain ⟨c, rest, htok, hc⟩ := htwo
    rw [parseValue_two_signs htok hc, f64FromStr_two_signs htok (by decide) hc,
      Option.map_eq_none_iff]
    constructor
    · rintro hnone ⟨c', rest', htok', -, hsome⟩
      rw [htok] at htok'
      cases htok'
      rw [hnone] at hsome
      cases hsome
    · intro hnot
      by_contra hsome
      exact hnot ⟨c, rest, htok, hc, Option.isSome_iff_ne_none.mpr hsome⟩
  · have hone : ∀ c rest, tok.toList = '+' :: c :: rest → isSign c = false := by
      intro c rest htok
      by_contra hc
      exact htwo ⟨c, rest, htok, Bool.eq_true_of_not_eq_false hc⟩
    refine iff_of_true (parseValue_one_sign hone) ?_
    rintro ⟨c, rest, htok, hc, -⟩
    exact htwo ⟨c, rest, htok, hc⟩

/-- Of the tokens that are accepted, these are the ones that start with two signs. -/
theorem doubleSigned_iff {tok : String} {v : F64} (h : parseValue tok = some v) :
    DoubleSigned tok ↔
      ∃ a c rest, tok.toList = a :: c :: rest ∧ isSign a = true ∧ isSign c = true := by
  constructor
  · rintro ⟨c, rest, htok, hc, -⟩
    exact ⟨'+', c, rest, htok, by decide, hc⟩
  · rintro ⟨a, c, rest, htok, ha, hc⟩
    by_contra hnot
    rw [(parseValue_eq_f64FromStr_iff tok).mpr hnot, f64FromStr_two_signs htok ha hc] at h
    cases h

/-- **`parse_value` is `f64::from_str` except on a plus before a signed literal.** Where a token is the
    value token of an accepted line it is the literal of the sample's value unless it is of that kind,
    that is, unless it starts with two signs. -/
theorem value_token_is_literal_iff (tok : String) :
    (parseValue tok = f64FromStr tok ↔ ¬ DoubleSigned tok) ∧
    ∀ before line after lineNo defaultTimestampMs honorTimestamps series parts,
      parseLineWithin before line after lineNo defaultTimestampMs honorTimestamps =
        .ok (some series) →
      linePartsWithin before line after lineNo = .ok parts → parts.valueToken = tok →
      (f64FromStr tok = some series.sample.value ↔ ¬ DoubleSigned tok) ∧
      (DoubleSigned tok ↔
        ∃ a c rest, tok.toList = a :: c :: rest ∧ isSign a = true ∧ isSign c = true) := by
  refine ⟨parseValue_eq_f64FromStr_iff tok, ?_⟩
  intro before line after lineNo defaultTimestampMs honorTimestamps series parts h hparts htok
  subst htok
  obtain ⟨s, tok, -, rfl, hcut, hvalue⟩ := parseLineWithin_parts h
  rw [hcut] at hparts
  cases hparts
  refine ⟨?_, doubleSigned_iff hvalue⟩
  rw [← parseValue_eq_f64FromStr_iff, hvalue]
  exact eq_comm

/-- One sign. -/
theorem value_token_is_literal_iff_plus :
    f64FromStr "+1.5" = parseValue "+1.5" :=
  ((value_token_is_literal_iff "+1.5").1.mpr (by
    rintro ⟨c, rest, htok, hc, -⟩
    cases htok
    revert hc
    decide)).symm

/-- A plus and a signed literal: the line is accepted, though no float literal starts with two signs. -/
theorem plus_minus_accepted :
    f64FromStr "+-5" = none ∧ parseValue "+-5" = f64FromStr "-5" ∧
      ∃ series, parseLineWithin "" "m +-5" "" 1 0 true = .ok (some series) ∧
        linePartsWithin "" "m +-5" "" 1 = .ok ⟨utf8Bytes "m", "+-5"⟩ ∧
        f64FromStr "-5" = some series.sample.value :=
  ⟨by decide, by decide, _, rfl, by decide, by decide⟩

end PromScrape
