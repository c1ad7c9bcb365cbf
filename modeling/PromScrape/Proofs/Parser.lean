import PromScrape.Proofs.ParserReader

set_option autoImplicit false

/-! # Lines of the text format

The byte-level line parser against the grammar: which lines it skips, which it accepts and with what
series, and that every other line is an error on that line. -/

namespace PromScrape

open Utf8 (encode utf8Bytes utf8Bytes_eq_encode)
open Scan (At headByte slice)

/-! ## The parts of a line -/

section

variable {bytes : List UInt8} {stop i line : Nat} {cs : List Char}

theorem parseLineLabels_agrees {identityEnd : Nat} {name : String}
    (hend : At bytes stop identityEnd cs) (h : At bytes stop i (skipBlanks cs)) :
    Agrees line (fun a r => At bytes stop a.1 r.2.1 ∧ a.2.1 = r.1 ∧ At bytes stop a.2.2 r.2.2)
      (parseLineLabels bytes stop line identityEnd i [⟨metricNameLabel, name⟩])
      (readLabelPart name cs) := by
  rw [parseLineLabels, readLabelPart]
  generalize skipBlanks cs = rest at h
  cases rest with
  | nil =>
      rw [lookingAt_nil h]
      exact Agrees.ok ⟨hend, rfl, h⟩
  | cons c rest =>
      rw [lookingAt_cons (by decide) h, ok_bind]
      dsimp only
      by_cases hbrace : c = '{'
      · subst hbrace
        rw [if_pos (by decide), if_pos rfl, parseLabels]
        have hrounds := h.length_chars_le
        rw [List.length_cons] at hrounds
        have hloop := parseLabelsLoop_agrees line (stop - i)
          [⟨metricNameLabel, name⟩] none (h.next (by decide)) (SeenOk.none _)
          (by omega) (Nat.lt_succ_self rest.length)
        rw [Option.map_eq_bind]
        refine hloop.bind ?_
        rintro ⟨close, _⟩ ⟨labels, rest⟩ ⟨rfl, hclose⟩
        obtain ⟨j, hskip, hat⟩ := skipBlanks_at hclose
        dsimp only
        rw [hskip]
        exact Agrees.ok ⟨hclose, rfl, hat⟩
      · rw [if_neg (by simpa using hbrace), if_neg hbrace]
        exact Agrees.ok ⟨hend, rfl, h⟩

theorem parseLineValue_agrees (h : At bytes stop i cs) :
    Agrees line (fun a r => a.1 = r.1 ∧ At bytes stop a.2 r.2) (parseLineValue bytes stop line i)
      (readValue cs) := by
  rw [parseLineValue, readValue]
  cases cs with
  | nil =>
      rw [if_pos (Nat.le_of_eq h.eq_stop.symm), if_pos rfl]
      exact Agrees.fail (by simp)
  | cons c cs =>
      obtain ⟨j, htoken, htext, hdrop⟩ := token_at h
      rw [if_neg (Nat.not_le.mpr h.lt_stop), if_neg (List.cons_ne_nil c cs), htoken, ok_bind, htext]
      dsimp only
      cases parseValue (String.ofList ((c :: cs).takeWhile (!isBlank ·))) with
      | none => exact Agrees.fail (by simp)
      | some v =>
          obtain ⟨j, hskip, hat⟩ := skipBlanks_at hdrop
          dsimp only
          rw [hskip]
          exact Agrees.ok ⟨rfl, hat⟩

theorem parseLineTimestamp_agrees (h : At bytes stop i cs) :
    Agrees line (fun a r => a.1 = r.1 ∧ At bytes stop a.2 r.2)
      (parseLineTimestamp bytes stop line i) (readStamp cs) := by
  rw [parseLineTimestamp]
  cases cs with
  | nil =>
      rw [if_neg (Nat.not_lt.mpr (Nat.le_of_eq h.eq_stop.symm))]
      exact Agrees.ok ⟨rfl, h⟩
  | cons c cs =>
      rw [if_pos h.lt_stop, byteAt_at h, ok_bind, headByte_beq (by decide), readStamp]
      by_cases hhash : c = '#'
      · rw [if_pos (by simpa using hhash), if_pos hhash]
        exact Agrees.ok ⟨rfl, h⟩
      obtain ⟨j, htoken, htext, hdrop⟩ := token_at h
      rw [if_neg (by simpa using hhash), if_neg hhash, htoken, ok_bind, htext]
      dsimp only
      cases parseTimestamp (String.ofList ((c :: cs).takeWhile (!isBlank ·))) with
      | none => exact Agrees.fail (by simp)
      | some t =>
          obtain ⟨j, hskip, hat⟩ := skipBlanks_at hdrop
          dsimp only
          rw [hskip]
          exact Agrees.ok ⟨rfl, hat⟩

theorem parseLineEnd_agrees (h : At bytes stop i cs) :
    Agrees line (fun _ _ => True) (parseLineEnd bytes stop line i) (readEnd cs) := by
  rw [parseLineEnd]
  cases cs with
  | nil =>
      rw [if_neg (Nat.not_lt.mpr (Nat.le_of_eq h.eq_stop.symm))]
      exact Agrees.ok trivial
  | cons c cs =>
      rw [if_pos h.lt_stop, byteAt_at h, ok_bind, headByte_beq (by decide), readEnd]
      by_cases hhash : c = '#'
      · rw [if_pos (by simpa using hhash), if_pos hhash]
        exact Agrees.ok trivial
      · rw [if_neg (by simpa using hhash), if_neg hhash]
        exact Agrees.fail (by simp)

/-- The text between two cursors. -/
theorem at_between {j : Nat} {pre rest : List Char} (h : At bytes stop i (pre ++ rest))
    (hj : At bytes stop j rest) : At bytes j i pre := by
  have hpos : j = i + (encode pre).length := by
    have hi := h.stop_eq
    have hstop := hj.stop_eq
    rw [Utf8.encode_append, List.length_append] at hi
    omega
  rw [hpos]
  exact h.take

theorem slice_between {j : Nat} {pre rest : List Char} (h : At bytes stop i (pre ++ rest))
    (hj : At bytes stop j rest) : slice bytes i j = encode pre :=
  (at_between h hj).slice_eq

end

/-! ## Sample lines -/

theorem parseSample_agrees {bytes : List UInt8} {stop i line : Nat} {c : Char} {cs : List Char}
    (h : At bytes stop i (c :: cs)) (defaultTimestampMs : Int64) (honorTimestamps : Bool) :
    Agrees line (fun a s => a = s.series defaultTimestampMs honorTimestamps)
      (parseSample bytes i stop line defaultTimestampMs honorTimestamps)
      (readSample (c :: cs)) := by
  rw [parseSample, byteAt_at h, ok_bind, (uniform_isNameStart true).headByte, readSample]
  by_cases hhead : isNameHead true c = true
  · obtain ⟨hskipName, hname⟩ := skipName_at h hhead
    rw [hhead, if_neg (by decide), if_neg (by decide), hskipName, ok_bind, strFrom_at hname]
    have hafter := hname.drop
    obtain ⟨j, hskip, hat⟩ := skipBlanks_at hafter
    dsimp only
    rw [hskip, ok_bind]
    refine (parseLineLabels_agrees hafter hat).and_eq.bind ?_
    rintro ⟨identityEnd, _, i₁⟩ ⟨labels, after, cs₁⟩ ⟨⟨hidentity, rfl, h₁⟩, hpart⟩
    refine (parseLineValue_agrees h₁).bind ?_
    rintro ⟨value, i₂⟩ ⟨_, cs₂⟩ ⟨rfl, h₂⟩
    refine (parseLineTimestamp_agrees h₂).bind ?_
    rintro ⟨timestamp, i₃⟩ ⟨_, cs₃⟩ ⟨rfl, h₃⟩
    refine (parseLineEnd_agrees h₃).bind ?_
    rintro ⟨⟩ ⟨⟩ -
    apply Agrees.ok
    -- what is hashed is the text of the name and of the label set
    obtain ⟨_, ident, pairs, -, hident, rfl, -⟩ := readLabelPart_sound hpart
    have hline := cons_eq_identity_append (c := c) hident
    have hslice : slice bytes i identityEnd =
        encode ((c :: cs.takeWhile (isNameTail true)) ++ ident) :=
      slice_between (hline ▸ h) hidentity
    dsimp only
    rw [hslice, take_identity hident, SampleText.series, List.tail_cons]
  · have hfalse := Bool.eq_false_of_not_eq_true hhead
    rw [hfalse, if_pos (by decide), if_pos rfl]
    exact Agrees.fail (by simp)

/-- **The line parser reads what the line reader reads.** -/
theorem parseLine_agrees {bytes : List UInt8} {start stop : Nat} {cs : List Char}
    (h : At bytes stop start cs) (line : Nat) (defaultTimestampMs : Int64)
    (honorTimestamps : Bool) :
    Agrees line (fun a o => a = o.map (·.series defaultTimestampMs honorTimestamps))
      (parseLine bytes start stop line defaultTimestampMs honorTimestamps) (readLine cs) := by
  obtain ⟨i, hskip, hat⟩ := skipBlanks_at h
  rw [parseLine, hskip, ok_bind, readLine]
  generalize skipBlanks cs = cs' at hat
  cases cs' with
  | nil =>
      rw [if_pos (Nat.le_of_eq hat.eq_stop.symm)]
      exact Agrees.ok rfl
  | cons c cs' =>
      rw [if_neg (Nat.not_le.mpr hat.lt_stop), byteAt_at hat, ok_bind, headByte_beq (by decide)]
      dsimp only
      by_cases hhash : c = '#'
      · rw [if_pos (by simpa using hhash), if_pos hhash]
        exact Agrees.ok rfl
      · rw [if_neg (by simpa using hhash), if_neg hhash]
        refine (parseSample_agrees hat defaultTimestampMs honorTimestamps).map ?_
        rintro _ s rfl
        rfl

/-- The line parser on `line`, wherever it stands in a body. -/
def parseLineWithin (before line after : String) (lineNo : Nat) (defaultTimestampMs : Int64)
    (honorTimestamps : Bool) : Except ParseFail (Option TimeSeries) :=
  parseLine (utf8Bytes (before ++ (line ++ after))) (utf8Bytes before).length
    ((utf8Bytes before).length + (utf8Bytes line).length) lineNo defaultTimestampMs honorTimestamps

theorem at_within (before line after : String) :
    At (utf8Bytes (before ++ (line ++ after)))
      ((utf8Bytes before).length + (utf8Bytes line).length) (utf8Bytes before).length
      line.toList := by
  simp only [utf8Bytes_eq_encode, String.toList_append]
  exact Scan.at_of_append ..

/-- **The line parser is the grammar.** Blank lines and comments give nothing, sample lines their
series, and every other line is an error on that line. -/
theorem parseLine_iff_grammar (before line after : String) (lineNo : Nat)
    (defaultTimestampMs : Int64) (honorTimestamps : Bool) :
    (parseLineWithin before line after lineNo defaultTimestampMs honorTimestamps = .ok none ↔
      NoSampleLine line.toList) ∧
    (∀ series, parseLineWithin before line after lineNo defaultTimestampMs honorTimestamps =
        .ok (some series) ↔
      ∃ s, SampleLine line.toList s ∧ series = s.series defaultTimestampMs honorTimestamps) ∧
    ((∃ kind, parseLineWithin before line after lineNo defaultTimestampMs honorTimestamps =
        .error (.error ⟨lineNo, kind⟩)) ↔
      ¬ NoSampleLine line.toList ∧ ¬ ∃ s, SampleLine line.toList s) := by
  have hagrees := parseLine_agrees (at_within before line after) lineNo defaultTimestampMs
    honorTimestamps
  simp only [← readLine_eq_sample_iff, ← readLine_eq_none_iff]
  change Agrees lineNo _ (parseLineWithin before line after lineNo defaultTimestampMs
    honorTimestamps) _ at hagrees
  generalize parseLineWithin before line after lineNo defaultTimestampMs honorTimestamps = result
    at hagrees ⊢
  generalize readLine line.toList = read at hagrees ⊢
  match result, read, hagrees with
  | .ok _, some none, rfl => simp
  | .ok _, some (some s), rfl => simp [eq_comm]
  | .error (.error ⟨_, kind⟩), none, ⟨rfl, _⟩ => simp

end PromScrape
