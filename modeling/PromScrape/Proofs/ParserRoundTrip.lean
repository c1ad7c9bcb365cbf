import PromScrape.Proofs.ParserLines

set_option autoImplicit false

/-! # Parsing what was printed

Every printed line is in the grammar, contains no newline and keeps its end when a carriage return
is stripped; the parser then gives the printed series back. -/

namespace PromScrape

open Numerals (isNumeralChar f64FromStr i64FromStr)

/-! ## Tokens -/

theorem parseValue_chars {tok : String} {v : F64} (h : parseValue tok = some v) :
    tok.toList ≠ [] ∧ ∀ c ∈ tok.toList, isNumeralChar c = true := by
  rw [parseValue] at h
  split at h
  · cases h
  next hne =>
  refine ⟨fun hnil => hne (String.toList_eq_nil_iff.mp hnil), ?_⟩
  split at h
  · next w hw => exact Numerals.isNumeralChar_of_f64FromStr hw
  · obtain ⟨rest, hstrip, hrest⟩ := Option.bind_eq_some_iff.mp h
    intro c hc
    rw [stripPlus] at hstrip
    split at hstrip
    · next tail htail =>
        cases hstrip
        rw [htail] at hc
        rcases List.mem_cons.mp hc with rfl | hc
        · rfl
        · exact Numerals.isNumeralChar_of_f64FromStr hrest c (by rwa [String.toList_ofList])
    · cases hstrip

/-- Nothing that delimits tokens or lines occurs in a numeral. -/
theorem isNumeralChar_delimiter {c : Char} (h : isNumeralChar c = true) :
    isBlank c = false ∧ c ≠ '\n' ∧ c ≠ '\r' ∧ c ≠ '#' := by
  refine ⟨?_, ?_, ?_, ?_⟩
  · by_contra hblank
    simp only [isBlank, Bool.not_eq_false, Bool.or_eq_true, beq_iff_eq] at hblank
    rcases hblank with rfl | rfl <;> revert h <;> decide
  all_goals
    rintro rfl
    revert h
    decide

theorem isToken_of_numeral {tok : List Char} (hne : tok ≠ [])
    (h : ∀ c ∈ tok, isNumeralChar c = true) : IsToken tok :=
  ⟨hne, fun c hc => (isNumeralChar_delimiter (h c hc)).1⟩

theorem isNumeralChar_toString {n : Int} {c : Char} (h : c ∈ (toString n).toList) :
    isNumeralChar c = true := by
  rcases Numerals.mem_toString_int h with hdigit | rfl
  · exact Numerals.isNumeralChar_of_isDigit hdigit
  · rfl

/-- An integer is a timestamp in milliseconds. -/
theorem parseTimestamp_toString (t : Int64) : parseTimestamp (toString t.toInt) = some t := by
  have hne : toString t.toInt ≠ "" := fun h =>
    Numerals.toString_int_ne_nil t.toInt (String.toList_eq_nil_iff.mpr h)
  have hany : (Utf8.utf8Bytes (toString t.toInt)).any
      (fun b => b == byte '.' || b == byte 'e' || b == byte 'E') = false := by
    rw [List.any_eq_false]
    intro b hb
    rw [Utf8.utf8Bytes_eq_encode] at hb
    obtain ⟨c, hc, hbc⟩ := List.mem_flatMap.mp hb
    have hclass := ((Scan.uniform_beq (a := '.') (by decide)).or
      (Scan.uniform_beq (a := 'e') (by decide))).or (Scan.uniform_beq (a := 'E') (by decide))
    have heq := hclass c b hbc
    dsimp only at heq
    rw [byte, byte, byte, heq]
    rcases Numerals.mem_toString_int hc with hdigit | rfl
    · have hne' {d : Char} (hd : d.isDigit = false) : c ≠ d := by
        rintro rfl
        rw [hdigit] at hd
        cases hd
      simp [hne' (d := '.') (by decide), hne' (d := 'e') (by decide), hne' (d := 'E') (by decide)]
    · decide
  rw [parseTimestamp, if_neg hne, hany]
  exact Numerals.i64FromStr_toString t

/-! ## Label sets -/

theorem valueText_printValue (value : List Char) : ValueText (printValue value) value := by
  induction value with
  | nil => exact .nil
  | cons c rest ih =>
      by_cases hback : c = '\\'
      · subst hback
        exact .escape (by decide) ih
      by_cases hquote : c = '"'
      · subst hquote
        exact .escape (by decide) ih
      by_cases hnewline : c = '\n'
      · subst hnewline
        exact .escape (by decide) ih
      have hprint : printChar c = [c] := by simp [printChar, hback, hquote, hnewline]
      rw [printValue, List.flatMap_cons, hprint]
      exact .plain hquote hback ih

theorem blanks_nil : Blanks [] := by simp [Blanks]

theorem pairText_printPair {l : Label} (h : IsName false l.name.toList) :
    PairText (printPair l) l := by
  have := PairText.mk blanks_nil h blanks_nil blanks_nil (valueText_printValue l.value.toList)
    blanks_nil
  rwa [String.ofList_toList, String.ofList_toList] at this

theorem pairsText_printPairs {labels : List Label} (h : ∀ l ∈ labels, IsName false l.name.toList) :
    PairsText (printPairs labels) labels := by
  induction labels with
  | nil => exact .blank blanks_nil
  | cons l rest ih =>
      have hpair := pairText_printPair (h l List.mem_cons_self)
      cases rest with
      | nil => exact .last hpair
      | cons l' rest =>
          exact .comma hpair (ih fun d hd => h d (List.mem_cons_of_mem _ hd))

/-! ## Lines -/

theorem tailText_printTimestamp (s : Exposed) : TailText s.printTimestamp s.timestamp := by
  rw [Exposed.printTimestamp]
  cases s.timestamp with
  | none => exact .bare (.blank blanks_nil)
  | some t =>
      have htok : IsToken (toString t.toInt).toList :=
        isToken_of_numeral (Numerals.toString_int_ne_nil _) fun c hc => isNumeralChar_toString hc
      have hstart : NotStarting (· == '#') (toString t.toInt).toList := by
        intro c hc
        have hchar := isNumeralChar_toString (List.mem_of_mem_head? hc)
        simpa using (isNumeralChar_delimiter hchar).2.2.2
      have := TailText.stamped (b := [' ']) (by simp [Blanks, isBlank]) (by simp) htok hstart
        (by rw [String.ofList_toList]; exact parseTimestamp_toString t) (.blank blanks_nil)
      rwa [List.append_nil] at this

/-- What a printed line says. -/
def Exposed.text (s : Exposed) : SampleText :=
  ⟨s.name.toList, s.printIdentity, s.labels, s.value, s.timestamp⟩

/-- **A printed line is in the grammar.** -/
theorem sampleLine_printLine (s : Exposed) : SampleLine s.printLine s.text := by
  obtain ⟨hne, hchars⟩ := parseValue_chars s.accepted
  have htok := isToken_of_numeral hne hchars
  have hvalue : parseValue (String.ofList s.token.toList) = some s.value := by
    rw [String.ofList_toList]
    exact s.accepted
  have hspace : Blanks [' '] := by simp [Blanks, isBlank]
  by_cases hlabels : s.labels = []
  · have hpart : LabelPart s.token.toList [' '] [] s.labels := by
      rw [hlabels]
      refine .absent hspace ?_
      intro c hc
      have hchar := hchars c (List.mem_of_mem_head? hc)
      rw [beq_eq_false_iff_ne]
      rintro rfl
      revert hchar
      decide
    have hline := SampleLine.mk blanks_nil s.validName (notStarting_cons.mpr (by decide)) hpart
      s.legal htok hvalue (tailText_printTimestamp s)
    rw [Exposed.printLine, Exposed.text, Exposed.printIdentity, if_pos hlabels]
    simpa using hline
  · have hpart : LabelPart s.token.toList ([] ++ '{' :: (printPairs s.labels ++ '}' :: [' ']))
        ([] ++ '{' :: (printPairs s.labels ++ ['}'])) s.labels :=
      .present blanks_nil (pairsText_printPairs s.validLabels) hspace
    have hline := SampleLine.mk blanks_nil s.validName (notStarting_cons.mpr (by decide)) hpart
      s.legal htok hvalue (tailText_printTimestamp s)
    rw [Exposed.printLine, Exposed.text, Exposed.printIdentity, if_neg hlabels]
    simpa using hline

/-! ## Newlines -/

theorem newline_not_mem_name {colon : Bool} {name : List Char} (h : IsName colon name) :
    '\n' ∉ name := by
  obtain ⟨c, rest, rfl, hhead, htail⟩ := h
  intro hmem
  rcases List.mem_cons.mp hmem with rfl | hmem
  · revert hhead
    cases colon <;> decide
  · have := htail _ hmem
    revert this
    cases colon <;> decide

theorem newline_not_mem_printValue (value : List Char) : '\n' ∉ printValue value := by
  intro hmem
  obtain ⟨c, -, hc⟩ := List.mem_flatMap.mp hmem
  rw [printChar] at hc
  split at hc
  · revert hc
    decide
  split at hc
  · revert hc
    decide
  split at hc
  · revert hc
    decide
  · next hnewline => exact hnewline (List.mem_singleton.mp hc).symm

theorem newline_not_mem_printPair {l : Label} (h : IsName false l.name.toList) :
    '\n' ∉ printPair l := by
  simp [printPair, newline_not_mem_name h, newline_not_mem_printValue]

theorem newline_not_mem_printPairs {labels : List Label}
    (h : ∀ l ∈ labels, IsName false l.name.toList) : '\n' ∉ printPairs labels := by
  induction labels with
  | nil => simp [printPairs]
  | cons l rest ih =>
      have hpair := newline_not_mem_printPair (h l List.mem_cons_self)
      cases rest with
      | nil => exact hpair
      | cons l' rest =>
          have hrest := ih fun d hd => h d (List.mem_cons_of_mem _ hd)
          rw [printPairs]
          · simp [hpair, hrest]
          · nofun

theorem newline_not_mem_printLine (s : Exposed) : '\n' ∉ s.printLine := by
  have hname := newline_not_mem_name s.validName
  have hpairs := newline_not_mem_printPairs s.validLabels
  have htoken : '\n' ∉ s.token.toList := fun hmem =>
    (isNumeralChar_delimiter ((parseValue_chars s.accepted).2 _ hmem)).2.1 rfl
  have hstamp : '\n' ∉ s.printTimestamp := by
    rw [Exposed.printTimestamp]
    cases s.timestamp with
    | none => simp
    | some t =>
        intro hmem
        rcases List.mem_cons.mp hmem with h | h
        · revert h
          decide
        · exact (isNumeralChar_delimiter (isNumeralChar_toString h)).2.1 rfl
  rw [Exposed.printLine, Exposed.printIdentity]
  split <;> simp [hname, hpairs, htoken, hstamp]

/-- A printed line ends in a character of a numeral, so stripping a carriage return keeps it. -/
theorem dropCr_printLine (s : Exposed) : dropCr s.printLine = s.printLine := by
  have hstamp : '\r' ∉ s.printTimestamp := by
    rw [Exposed.printTimestamp]
    cases s.timestamp with
    | none => simp
    | some t =>
        intro hmem
        rcases List.mem_cons.mp hmem with h | h
        · revert h
          decide
        · exact (isNumeralChar_delimiter (isNumeralChar_toString h)).2.2.1 rfl
  have htoken : '\r' ∉ s.token.toList := fun hmem =>
    (isNumeralChar_delimiter ((parseValue_chars s.accepted).2 _ hmem)).2.2.1 rfl
  rw [dropCr, if_neg]
  intro hlast
  rw [Exposed.printLine, List.getLast?_append_of_ne_nil _ (List.cons_ne_nil _ _)] at hlast
  rcases List.mem_cons.mp (List.mem_of_getLast? hlast) with h | h
  · revert h
    decide
  rcases List.mem_append.mp h with h | h
  · exact htoken h
  · exact hstamp h

/-! ## Bodies -/

theorem bodyLines_append {line : List Char} (h : '\n' ∉ line) (rest : List Char) :
    bodyLines (line ++ '\n' :: rest) = line :: bodyLines rest := by
  have hall : ∀ c ∈ line, isNotNewline c = true := by
    intro c hc
    rw [isNotNewline, Bool.not_eq_true', beq_eq_false_iff_ne]
    rintro rfl
    exact h hc
  have hstop : NotStarting isNotNewline ('\n' :: rest) := notStarting_cons.mpr (by decide)
  rw [bodyLines_eq (by simp), takeWhile_span hall hstop, dropWhile_span hall hstop]
  rfl

/-- The line that the splitter makes of a printed series, with either line ending. -/
theorem bodyLines_print (s : Exposed) (rest : List Char) :
    ∃ line, bodyLines (s.print ++ rest) = line :: bodyLines rest ∧
      dropCr line = s.printLine := by
  have hline := newline_not_mem_printLine s
  rw [Exposed.print]
  cases s.crlf with
  | false =>
      refine ⟨s.printLine, ?_, dropCr_printLine s⟩
      rw [if_neg (by decide), List.append_assoc]
      exact bodyLines_append hline _
  | true =>
      refine ⟨s.printLine ++ ['\r'], ?_, ?_⟩
      · rw [if_pos rfl, List.append_assoc]
        have hline' : '\n' ∉ s.printLine ++ ['\r'] := by simp [hline]
        have := bodyLines_append hline' rest
        rwa [List.append_assoc] at this
      · simp [dropCr]

theorem readBody_print (exposed : List Exposed) (n : Nat) :
    readBody n (bodyLines (exposed.flatMap Exposed.print)) = .ok (exposed.map Exposed.text) := by
  induction exposed generalizing n with
  | nil => rfl
  | cons s rest ih =>
      obtain ⟨line, hlines, hline⟩ := bodyLines_print s (rest.flatMap Exposed.print)
      have hread := readLine_eq_sample_iff.mpr (sampleLine_printLine s)
      rw [List.flatMap_cons, hlines, readBody, hline, hread]
      dsimp only
      rw [ih]
      rfl

theorem series_text (s : Exposed) (defaultTimestampMs : Int64) :
    s.text.series defaultTimestampMs true = s.series defaultTimestampMs := by
  simp [SampleText.series, Exposed.series, Exposed.text]

/-- **Parsing inverts printing**, whatever the label values contain and however lines end. -/
theorem parse_printBody (exposed : List Exposed) (defaultTimestampMs : Int64) :
    parse (printBody exposed) defaultTimestampMs true =
      .ok (exposed.map (·.series defaultTimestampMs)) := by
  have hagrees := parse_agrees (printBody exposed) defaultTimestampMs true
  rw [printBody, String.toList_ofList, readBody_print, ← printBody] at hagrees
  generalize parse (printBody exposed) defaultTimestampMs true = result at hagrees ⊢
  match result, hagrees with
  | .ok _, rfl => simp [series_text, Function.comp_def]

/-- A value with a brace, a comma, quotes, backslashes and line breaks in it. -/
example : (parse (printBody [
      { name := "up", labels := [⟨"path", "a\\n\\\"\x7d, #\r\n"⟩], token := "+Inf",
        value := F64.infinity, timestamp := some (-5), crlf := true,
        validName := ⟨'u', ['p'], rfl, by decide, List.all_eq_true.mp (by decide)⟩,
        validLabels := by
          simp only [List.mem_singleton, forall_eq]
          exact ⟨'p', ['a', 't', 'h'], rfl, by decide, List.all_eq_true.mp (by decide)⟩,
        legal := ⟨by decide, by decide, by decide⟩,
        accepted := by decide }]) 7 true).map (·.map fun s => (s.labels, s.sample)) =
    .ok [([⟨metricNameLabel, "up"⟩, ⟨"path", "a\\n\\\"\x7d, #\r\n"⟩], ⟨F64.infinity, -5⟩)] := by
  decide +kernel

end PromScrape
