import PromScrape.Proofs.ParserAccess

set_option autoImplicit false

/-! # The lines of a body

A run of the text parser as a run over the lines of its body, each parsed as if it stood alone. The
line reader reads the same samples; and joined bodies, the line that an error names and line endings
are seen on the lines. -/

namespace PromScrape

open Utf8 (encode utf8Bytes utf8Bytes_eq_encode)
open Scan (At)

/-! ## Lines of a text -/

theorem bodyLines_newline_cons (cs : List Char) : bodyLines ('\n' :: cs) = [] :: bodyLines cs := by
  rw [bodyLines, if_pos rfl]

theorem bodyLines_cons {c : Char} (hc : c ≠ '\n') (cs : List Char) :
    bodyLines (c :: cs) = (c :: (bodyLines cs).headD []) :: (bodyLines cs).tail := by
  rw [bodyLines, if_neg hc]
  cases bodyLines cs <;> rfl

theorem length_bodyLines_newline (cs : List Char) :
    (bodyLines (cs ++ ['\n'])).length = cs.count '\n' + 1 := by
  induction cs with
  | nil => rfl
  | cons c cs ih =>
      rw [List.cons_append]
      by_cases hc : c = '\n'
      · subst hc
        rw [bodyLines_newline_cons, List.length_cons, ih, List.count_cons_self]
      · rw [bodyLines_cons hc, List.length_cons, List.length_tail, ih, List.count_cons_of_ne hc]
        rfl

/-- A newline ends a line, whatever follows it. -/
theorem bodyLines_append_newline (as bs : List Char) :
    bodyLines (as ++ '\n' :: bs) = bodyLines (as ++ ['\n']) ++ bodyLines bs := by
  induction as with
  | nil => exact bodyLines_newline_cons bs
  | cons a as ih =>
      rw [List.cons_append, List.cons_append]
      by_cases ha : a = '\n'
      · subst ha
        rw [bodyLines_newline_cons, bodyLines_newline_cons, ih, List.cons_append]
      · have hlen := length_bodyLines_newline as
        rw [bodyLines_cons ha, bodyLines_cons ha, ih]
        cases hlines : bodyLines (as ++ ['\n']) with
        | nil => simp [hlines] at hlen
        | cons l ls => rfl

/-- A newline at the end of a text adds an empty line at most. -/
theorem bodyLines_newline (cs : List Char) :
    bodyLines (cs ++ ['\n']) = bodyLines cs ∨ bodyLines (cs ++ ['\n']) = bodyLines cs ++ [[]] := by
  induction cs with
  | nil => exact .inr rfl
  | cons c cs ih =>
      rw [List.cons_append]
      by_cases hc : c = '\n'
      · subst hc
        rw [bodyLines_newline_cons, bodyLines_newline_cons, List.cons_append]
        exact ih.imp (congrArg _) (congrArg _)
      · rw [bodyLines_cons hc, bodyLines_cons hc]
        rcases ih with ih | ih
        · exact .inl (by rw [ih])
        · rw [ih]
          -- after a single unfinished line there is no empty one
          rcases bodyLines cs with _ | ⟨l, ls⟩
          · exact .inl rfl
          · exact .inr rfl

/-- `body.replace("\n", "\r\n")`. -/
def crlf (cs : List Char) : List Char := cs.flatMap fun c => if c = '\n' then ['\r', '\n'] else [c]

theorem dropCr_cons {c : Char} (hc : c ≠ '\r') (line : List Char) :
    dropCr (c :: line) = c :: dropCr line := by
  unfold dropCr
  rcases line.eq_nil_or_concat with rfl | ⟨init, d, rfl⟩
  · simp [hc]
  · rw [List.concat_eq_append, ← List.cons_append, List.getLast?_concat, List.getLast?_concat,
      List.dropLast_concat, List.dropLast_concat]
    split <;> rfl

theorem lines_crlf {cs : List Char} (h : '\r' ∉ cs) :
    (bodyLines (crlf cs)).map dropCr = (bodyLines cs).map dropCr := by
  induction cs with
  | nil => rfl
  | cons c cs ih =>
      rw [List.mem_cons, not_or] at h
      have ih := ih h.2
      by_cases hc : c = '\n'
      · subst hc
        have hcons : crlf ('\n' :: cs) = '\r' :: '\n' :: crlf cs := rfl
        rw [hcons, bodyLines_cons (by decide), bodyLines_newline_cons, bodyLines_newline_cons,
          List.map_cons, List.map_cons, List.tail_cons, ih]
        rfl
      · have hcons : crlf (c :: cs) = c :: crlf cs := by
          rw [crlf, List.flatMap_cons, if_neg hc]
          rfl
        rw [hcons, bodyLines_cons hc, bodyLines_cons hc, List.map_cons, List.map_cons,
          dropCr_cons (Ne.symm h.1), dropCr_cons (Ne.symm h.1), List.map_tail, List.map_tail, ih]
        generalize bodyLines (crlf cs) = lines at ih ⊢
        generalize bodyLines cs = lines' at ih ⊢
        rcases lines with _ | ⟨l, ls⟩ <;> rcases lines' with _ | ⟨l', ls'⟩
        · rfl
        · cases ih
        · cases ih
        · rw [List.map_cons, List.map_cons, List.cons.injEq] at ih
          rw [List.headD_cons, List.headD_cons, ih.1]

/-! ## Lines alone -/

/-- The same failure `k` lines later. -/
def ParseFail.later (k : Nat) : ParseFail → ParseFail
  | .error e => .error { e with line := e.line + k }
  | .panic => .panic

section

variable (defaultTimestampMs : Int64) (honorTimestamps : Bool)

/-- The line parser on a body that is the line. -/
def parseAlone (lineNo : Nat) (line : List Char) : Except ParseFail (Option TimeSeries) :=
  parseLine (encode line) 0 (encode line).length lineNo defaultTimestampMs honorTimestamps

theorem Access.Twin.eq {α : Type} {line : Nat} {x y : Except ParseFail α}
    (h : Access.Twin line line Eq x y) : x = y := by
  cases h with
  | ok h => exact congrArg Except.ok h
  | fail _ => rfl

theorem Access.Twin.ok_right {α : Type} {line line' : Nat} {x y : Except ParseFail α} {a : α}
    (h : Access.Twin line line' Eq x y) (hy : y = .ok a) : x = .ok a := by
  cases h with
  | ok h => rw [h, hy]
  | fail _ => simp [parseError] at hy

theorem Access.Twin.error_right {α β : Type} {line line' : Nat} {R : α → β → Prop}
    {x : Except ParseFail α} {y : Except ParseFail β} {fail : ParseFail}
    (h : Access.Twin line line' R x y) (hy : y = .error fail) :
    ∃ kind, fail = .error ⟨line', kind⟩ ∧ x = parseError line kind ∧ kind ≠ .invalidBoundary := by
  cases h with
  | ok h => simp at hy
  | @fail kind hkind =>
      cases hy
      exact ⟨kind, rfl, rfl, hkind⟩

theorem twin_parseAlone (lineNo lineNo' : Nat) (line : List Char) :
    Access.Twin lineNo lineNo' Eq (parseAlone defaultTimestampMs honorTimestamps lineNo line)
      (parseAlone defaultTimestampMs honorTimestamps lineNo' line) := by
  have htwin := Access.twin_parseLine lineNo lineNo' (Access.reads_plain _) (Access.reads_plain _)
    (Scan.at_encode line) (Scan.at_encode line) defaultTimestampMs honorTimestamps
  rwa [Access.parseLine_plain, Access.parseLine_plain] at htwin

/-- Where a line stands does not matter. -/
theorem Access.Reads.parseLine_alone {A : Access} {bytes : List UInt8} {stop i : Nat}
    {line : List Char} (hA : A.Reads bytes) (h : At bytes stop i line) (lineNo : Nat) :
    A.parseLine i stop lineNo defaultTimestampMs honorTimestamps =
      parseAlone defaultTimestampMs honorTimestamps lineNo line := by
  have htwin := Access.twin_parseLine lineNo lineNo hA (Access.reads_plain _) h (Scan.at_encode line)
    defaultTimestampMs honorTimestamps
  rw [Access.parseLine_plain] at htwin
  exact htwin.eq

theorem parseAlone_add (lineNo k : Nat) (line : List Char) :
    parseAlone defaultTimestampMs honorTimestamps (lineNo + k) line =
      (parseAlone defaultTimestampMs honorTimestamps lineNo line).mapError (·.later k) := by
  have htwin := twin_parseAlone defaultTimestampMs honorTimestamps lineNo (lineNo + k) line
  generalize parseAlone defaultTimestampMs honorTimestamps lineNo line = x at htwin
  generalize parseAlone defaultTimestampMs honorTimestamps (lineNo + k) line = y at htwin
  cases htwin with
  | ok heq => exact congrArg Except.ok heq.symm
  | fail _ => rfl

/-! ## Runs over lines -/

/-- A run over lines of which `lineNo` are behind; the lines come without their carriage returns. -/
def parseLines : Nat → List (List Char) → Except ParseFail (List TimeSeries)
  | _, [] => .ok []
  | lineNo, line :: lines => do
      let series ← parseAlone defaultTimestampMs honorTimestamps (lineNo + 1) line
      let more ← parseLines (lineNo + 1) lines
      .ok (series.toList ++ more)

section

variable {A : Access} {bytes : List UInt8} {pos : Nat} {cs : List Char}

theorem Access.Reads.lineEndFrom_at (hA : A.Reads bytes) (h : At bytes bytes.length pos cs) :
    A.lineEndFrom bytes.length pos = .ok (PromScrape.lineEndFrom bytes pos) := by
  rw [← Access.lineEndFrom_plain, Access.lineEndFrom, Access.lineEndFrom,
    hA.slice (Access.isSlice_at h)]
  rfl

theorem Access.Reads.stripCr_at {stop : Nat} {line : List Char} (hA : A.Reads bytes)
    (h : At bytes stop pos line) :
    ∃ j, A.stripCr pos stop = .ok j ∧ At bytes j pos (dropCr line) := by
  obtain ⟨j, hstrip, hat⟩ := PromScrape.stripCr_at h
  refine ⟨j, ?_, hat⟩
  rw [← hstrip, Access.stripCr, PromScrape.stripCr]
  by_cases hpos : pos < stop
  · have hin : stop - 1 < bytes.length := by
      have := h.length_le
      omega
    have hlast := List.getElem?_eq_getElem hin
    rw [if_pos hpos, if_pos hpos, hA.byteAt hlast, Access.byteAt_of_getElem? hlast]
  · rw [if_neg hpos, if_neg hpos]

/-- **The parser takes its body line by line.** -/
theorem Access.Reads.parseFrom_eq (hA : A.Reads bytes) (n : Nat) :
    ∀ {pos : Nat} {cs : List Char} (lineNo : Nat) (out : List TimeSeries),
      At bytes bytes.length pos cs → cs.length ≤ n →
      A.parseFrom bytes.length defaultTimestampMs honorTimestamps n lineNo pos out =
        (parseLines defaultTimestampMs honorTimestamps lineNo ((bodyLines cs).map dropCr)).map
          (out ++ ·) := by
  induction n with
  | zero =>
      intro pos cs lineNo out h hn
      obtain rfl := List.length_eq_zero_iff.mp (Nat.le_zero.mp hn)
      rw [Access.parseFrom, if_neg (Nat.not_lt.mpr (Nat.le_of_eq h.eq_stop.symm))]
      exact congrArg Except.ok (List.append_nil out).symm
  | succ n ih =>
      intro pos cs lineNo out h hn
      rcases eq_or_ne cs [] with rfl | hne
      · rw [Access.parseFrom, if_neg (Nat.not_lt.mpr (Nat.le_of_eq h.eq_stop.symm))]
        exact congrArg Except.ok (List.append_nil out).symm
      obtain ⟨stop, hstrip, hat⟩ := hA.stripCr_at (line_at h)
      rw [Access.parseFrom, if_pos (h.lt_stop_of_ne_nil hne), hA.lineEndFrom_at h, ok_bind]
      dsimp only
      rw [hstrip, ok_bind, hA.parseLine_alone _ _ hat, bodyLines_eq hne, List.map_cons, parseLines]
      cases parseAlone defaultTimestampMs honorTimestamps (lineNo + 1)
          (dropCr (cs.takeWhile isNotNewline)) with
      | error _ => rfl
      | ok series =>
          rw [ok_bind, ok_bind, ih _ _ (next_at h)
            (Nat.le_of_lt_succ ((length_rest_lt hne).trans_le hn))]
          generalize parseLines defaultTimestampMs honorTimestamps _ _ = result
          cases result with
          | error _ => rfl
          | ok more => exact congrArg Except.ok (List.append_assoc ..)

end

theorem Access.Reads.parse_eq {A : Access} {body : String} (hA : A.Reads (utf8Bytes body)) :
    A.parse (utf8Bytes body).length defaultTimestampMs honorTimestamps =
      parseLines defaultTimestampMs honorTimestamps 0 ((bodyLines body.toList).map dropCr) := by
  rw [utf8Bytes_eq_encode] at hA ⊢
  have hat := Scan.at_encode body.toList
  rw [Access.parse, hA.parseFrom_eq _ _ _ 0 [] hat (by simpa using hat.length_chars_le)]
  generalize parseLines defaultTimestampMs honorTimestamps _ _ = result
  cases result <;> rfl

theorem parse_eq (body : String) :
    parse body defaultTimestampMs honorTimestamps =
      parseLines defaultTimestampMs honorTimestamps 0 ((bodyLines body.toList).map dropCr) := by
  rw [← Access.parse_plain]
  exact (Access.reads_plain _).parse_eq defaultTimestampMs honorTimestamps

theorem parseLines_append (lineNo : Nat) (lines lines' : List (List Char)) :
    parseLines defaultTimestampMs honorTimestamps lineNo (lines ++ lines') = (do
      let xs ← parseLines defaultTimestampMs honorTimestamps lineNo lines
      let ys ← parseLines defaultTimestampMs honorTimestamps (lineNo + lines.length) lines'
      .ok (xs ++ ys)) := by
  induction lines generalizing lineNo with
  | nil =>
      rw [parseLines, ok_bind, List.nil_append, List.length_nil, Nat.add_zero]
      cases parseLines defaultTimestampMs honorTimestamps lineNo lines' <;> rfl
  | cons line lines ih =>
      rw [List.cons_append, parseLines, parseLines, ih, List.length_cons,
        show lineNo + (lines.length + 1) = lineNo + 1 + lines.length by omega]
      cases parseAlone defaultTimestampMs honorTimestamps (lineNo + 1) line with
      | error _ => rfl
      | ok series =>
          cases parseLines defaultTimestampMs honorTimestamps (lineNo + 1) lines with
          | error _ => rfl
          | ok xs =>
              rw [ok_bind, ok_bind, ok_bind, ok_bind]
              cases parseLines defaultTimestampMs honorTimestamps (lineNo + 1 + lines.length)
                  lines' with
              | error _ => rfl
              | ok ys => exact congrArg Except.ok (List.append_assoc ..).symm

theorem parseLines_add (lineNo k : Nat) (lines : List (List Char)) :
    parseLines defaultTimestampMs honorTimestamps (lineNo + k) lines =
      (parseLines defaultTimestampMs honorTimestamps lineNo lines).mapError (·.later k) := by
  induction lines generalizing lineNo with
  | nil => rfl
  | cons line lines ih =>
      rw [parseLines, parseLines, Nat.add_right_comm, parseAlone_add, ih]
      cases parseAlone defaultTimestampMs honorTimestamps (lineNo + 1) line with
      | error _ => rfl
      | ok series =>
          rw [ok_bind]
          cases parseLines defaultTimestampMs honorTimestamps (lineNo + 1) lines <;> rfl

/-! ## Bodies -/

/-- The line parser accepts `line`, wherever it stands. -/
def Accepts (line : List Char) : Prop :=
  ∀ before after lineNo, ∃ series, parseLineWithin before (String.ofList line) after lineNo
    defaultTimestampMs honorTimestamps = .ok series

/-- The line parser rejects `line`, wherever it stands. -/
def Rejects (line : List Char) (kind : ParseErrorKind) : Prop :=
  ∀ before after lineNo, parseLineWithin before (String.ofList line) after lineNo
    defaultTimestampMs honorTimestamps = parseError lineNo kind

/-- A result over lines of which `lineNo` are behind: an error is that of the first line that the
line parser rejects, on that line. -/
inductive Verdict (lineNo : Nat) : List (List Char) → Except ParseFail (List TimeSeries) → Prop where
  | accepted {lines : List (List Char)} (series : List TimeSeries)
      (h : ∀ line ∈ lines, Accepts defaultTimestampMs honorTimestamps line) :
      Verdict lineNo lines (.ok series)
  | rejected {before : List (List Char)} {line : List Char} (after : List (List Char))
      {kind : ParseErrorKind}
      (hbefore : ∀ line ∈ before, Accepts defaultTimestampMs honorTimestamps line)
      (hline : Rejects defaultTimestampMs honorTimestamps line kind) :
      Verdict lineNo (before ++ line :: after) (parseError (lineNo + before.length + 1) kind)

theorem parseLineWithin_eq (before after : String) (line : List Char) (lineNo : Nat) :
    parseLineWithin before (String.ofList line) after lineNo defaultTimestampMs honorTimestamps =
      parseAlone defaultTimestampMs honorTimestamps lineNo line := by
  have hat := at_within before (String.ofList line) after
  rw [String.toList_ofList] at hat
  rw [← (Access.reads_plain _).parseLine_alone _ _ hat, Access.parseLine_plain]
  rfl

theorem parseAlone_verdict (lineNo : Nat) (line : List Char) :
    (Accepts defaultTimestampMs honorTimestamps line ∧
      ∃ series, parseAlone defaultTimestampMs honorTimestamps lineNo line = .ok series) ∨
    ∃ kind, Rejects defaultTimestampMs honorTimestamps line kind ∧
      parseAlone defaultTimestampMs honorTimestamps lineNo line = parseError lineNo kind := by
  simp only [Accepts, Rejects, parseLineWithin_eq]
  have htwin := fun n => twin_parseAlone defaultTimestampMs honorTimestamps n lineNo line
  cases hresult : parseAlone defaultTimestampMs honorTimestamps lineNo line with
  | ok series => exact .inl ⟨fun _ _ n => ⟨series, (htwin n).ok_right hresult⟩, series, rfl⟩
  | error fail =>
      obtain ⟨kind, rfl, -⟩ := (htwin lineNo).error_right hresult
      refine .inr ⟨kind, fun _ _ n => ?_, rfl⟩
      obtain ⟨kind', hkind, hline, -⟩ := (htwin n).error_right hresult
      cases hkind
      exact hline

theorem Rejects.kind_ne {line : List Char} {kind : ParseErrorKind}
    (h : Rejects defaultTimestampMs honorTimestamps line kind) : kind ≠ .invalidBoundary := by
  have hline := h "" "" 0
  rw [parseLineWithin_eq] at hline
  obtain ⟨_, hkind, -, hne⟩ :=
    (twin_parseAlone defaultTimestampMs honorTimestamps 0 0 line).error_right hline
  cases hkind
  exact hne

theorem parseLines_verdict (lineNo : Nat) (lines : List (List Char)) :
    Verdict defaultTimestampMs honorTimestamps lineNo lines
      (parseLines defaultTimestampMs honorTimestamps lineNo lines) := by
  induction lines generalizing lineNo with
  | nil => exact .accepted [] (by simp)
  | cons line lines ih =>
      rw [parseLines]
      rcases parseAlone_verdict defaultTimestampMs honorTimestamps (lineNo + 1) line with
        ⟨haccepts, series, hline⟩ | ⟨kind, hrejects, hline⟩
      · rw [hline, ok_bind]
        have hrest := ih (lineNo + 1)
        generalize parseLines defaultTimestampMs honorTimestamps (lineNo + 1) lines = result at hrest
        cases hrest with
        | accepted more hlines =>
            exact .accepted _ (List.forall_mem_cons.mpr ⟨haccepts, hlines⟩)
        | @rejected before _ after _ hbefore hline' =>
            have hbefore := List.forall_mem_cons.mpr ⟨haccepts, hbefore⟩
            have hverdict : Verdict defaultTimestampMs honorTimestamps lineNo _ _ :=
              .rejected after hbefore hline'
            rw [List.length_cons, show lineNo + (before.length + 1) + 1 =
              lineNo + 1 + before.length + 1 by omega] at hverdict
            exact hverdict
      · rw [hline]
        have hnil : ∀ line ∈ [], Accepts defaultTimestampMs honorTimestamps line := by simp
        exact .rejected lines hnil hrejects

/-- A body that ends in a newline parses as without it. -/
theorem parse_newline (body : String) :
    parse (body ++ "\n") defaultTimestampMs honorTimestamps =
      parse body defaultTimestampMs honorTimestamps := by
  have hnewline : "\n".toList = ['\n'] := rfl
  rw [parse_eq, parse_eq, String.toList_append, hnewline]
  rcases bodyLines_newline body.toList with hlines | hlines
  · rw [hlines]
  · rw [hlines, List.map_append, parseLines_append]
    cases parseLines defaultTimestampMs honorTimestamps 0 ((bodyLines body.toList).map dropCr) with
    | error _ => rfl
    | ok xs => exact congrArg Except.ok (List.append_nil xs)

theorem parse_joined (a b : String) :
    parse (a ++ "\n" ++ b) defaultTimestampMs honorTimestamps = (do
      let xs ← parse (a ++ "\n") defaultTimestampMs honorTimestamps
      let ys ← (parse b defaultTimestampMs honorTimestamps).mapError
        (·.later (a.toList.count '\n' + 1))
      .ok (xs ++ ys)) := by
  have hnewline : "\n".toList = ['\n'] := rfl
  rw [parse_eq, parse_eq, parse_eq, String.toList_append, String.toList_append, hnewline,
    List.append_assoc, List.singleton_append, bodyLines_append_newline, List.map_append,
    parseLines_append, List.length_map, length_bodyLines_newline, parseLines_add]

/-- **Parsing is by lines.** Bodies joined by a newline parse to their joined series, or to the first
error, with the lines of the first body counted; an error names the first line that the line parser
rejects, wherever the line stands; a last newline and carriage returns before newlines change
nothing. -/
theorem parse_by_lines :
    (∀ a b : String, parse (a ++ "\n" ++ b) defaultTimestampMs honorTimestamps = (do
      let xs ← parse a defaultTimestampMs honorTimestamps
      let ys ← (parse b defaultTimestampMs honorTimestamps).mapError
        (·.later (a.toList.count '\n' + 1))
      .ok (xs ++ ys))) ∧
    (∀ body : String, Verdict defaultTimestampMs honorTimestamps 0
      ((bodyLines body.toList).map dropCr) (parse body defaultTimestampMs honorTimestamps)) ∧
    (∀ body : String, parse (body ++ "\n") defaultTimestampMs honorTimestamps =
      parse body defaultTimestampMs honorTimestamps) ∧
    (∀ body : String, '\r' ∉ body.toList →
      parse (String.ofList (crlf body.toList)) defaultTimestampMs honorTimestamps =
        parse body defaultTimestampMs honorTimestamps) := by
  refine ⟨fun a b => ?_, fun body => ?_, fun body => ?_, fun body h => ?_⟩
  · rw [parse_joined, parse_newline]
  · rw [parse_eq]
    exact parseLines_verdict ..
  · exact parse_newline ..
  · rw [parse_eq, parse_eq, String.toList_ofList, lines_crlf h]

end

/-! ## The line reader's samples -/

/-- The parser's result on a body, against the reader's: the same series after those in `out`, or an
error on the line the reader stops at. -/
def BodyAgrees (defaultTimestampMs : Int64) (honorTimestamps : Bool) (out : List TimeSeries) :
    Except ParseFail (List TimeSeries) → Except Nat (List SampleText) → Prop
  | .ok series, .ok samples =>
      series = out ++ samples.map (·.series defaultTimestampMs honorTimestamps)
  | .error (.error e), .error n => e.line = n
  | _, _ => False

theorem parseLines_agrees (defaultTimestampMs : Int64) (honorTimestamps : Bool) (lineNo : Nat)
    (lines : List (List Char)) :
    BodyAgrees defaultTimestampMs honorTimestamps []
      (parseLines defaultTimestampMs honorTimestamps lineNo (lines.map dropCr))
      (readBody lineNo lines) := by
  induction lines generalizing lineNo with
  | nil => rfl
  | cons line lines ih =>
      have hparse := parseLine_agrees (Scan.at_encode (dropCr line)) (lineNo + 1)
        defaultTimestampMs honorTimestamps
      rw [List.map_cons, parseLines, readBody, parseAlone]
      generalize parseLine (encode (dropCr line)) 0 _ (lineNo + 1) defaultTimestampMs
        honorTimestamps = result at hparse ⊢
      generalize readLine (dropCr line) = read at hparse ⊢
      match result, read, hparse with
      | .error (.error e), none, hparse => exact hparse.1
      | .ok _, some s, rfl =>
          have hrest := ih (lineNo + 1)
          rw [ok_bind]
          dsimp only
          generalize readBody (lineNo + 1) lines = samples at hrest ⊢
          generalize parseLines defaultTimestampMs honorTimestamps (lineNo + 1) _ = series
            at hrest ⊢
          match series, samples, hrest with
          | .error (.error e), .error _, hrest => exact hrest
          | .ok _, .ok samples, rfl => cases s <;> simp [BodyAgrees, Except.map, ok_bind]

/-- **A body is parsed line by line.** -/
theorem parse_agrees (body : String) (defaultTimestampMs : Int64) (honorTimestamps : Bool) :
    BodyAgrees defaultTimestampMs honorTimestamps []
      (parse body defaultTimestampMs honorTimestamps) (readBody 0 (bodyLines body.toList)) := by
  rw [parse_eq]
  exact parseLines_agrees defaultTimestampMs honorTimestamps 0 _

end PromScrape
