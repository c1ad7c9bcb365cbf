import PromScrape.Spec.ParserAccess
import PromScrape.Proofs.ParserBody

set_option autoImplicit false

/-! # What the text parser reads

`Twin` relates two runs of the parser, each over its own way to read a body, that stand before the
same text. -/

namespace PromScrape

open Utf8 (encode utf8Bytes)
open Scan (At Uniform headByte)

namespace Access

/-! ## The parser itself -/

section

variable (bytes : List UInt8)

theorem skipFrom_plain (p : UInt8 → Bool) (n i : Nat) :
    (plain bytes).skipFrom p n i = orPanic (Scan.advance p bytes n i) := by
  induction n generalizing i with
  | zero => rfl
  | succ n ih =>
      rw [skipFrom, Scan.advance]
      show (PromScrape.byteAt bytes i >>= _) = _
      rw [PromScrape.byteAt]
      cases bytes[i]? with
      | none => rfl
      | some b =>
          show (if p b = true then (plain bytes).skipFrom p n (i + 1) else .ok i) = _
          dsimp only
          split
          · exact ih (i + 1)
          · rfl

theorem skip_plain : (plain bytes).skip = PromScrape.skip bytes := by
  funext stop p i
  exact skipFrom_plain bytes p (stop - i) i

theorem scanQuote_plain (stop lineNo n i : Nat) (hasEscape : Bool) :
    (plain bytes).scanQuote stop lineNo n i hasEscape =
      PromScrape.scanQuote bytes stop lineNo n i hasEscape := by
  induction n generalizing i hasEscape with
  | zero => rfl
  | succ n ih =>
      rw [scanQuote, PromScrape.scanQuote]
      simp only [ih]
      rfl

theorem unescape_plain (contentStart : Nat) (raw : List UInt8) (lineNo n j : Nat) (decoded : String) :
    (plain bytes).unescape contentStart raw lineNo n j decoded =
      PromScrape.unescape bytes contentStart raw lineNo n j decoded := by
  induction n generalizing j decoded with
  | zero => rfl
  | succ n ih =>
      rw [unescape, PromScrape.unescape]
      simp only [ih]
      rfl

theorem parseLabelValue_plain (start stop lineNo : Nat) :
    (plain bytes).parseLabelValue start stop lineNo =
      PromScrape.parseLabelValue bytes start stop lineNo := by
  rw [parseLabelValue, PromScrape.parseLabelValue]
  simp only [scanQuote_plain, unescape_plain]
  rfl

theorem parseLabelName_plain (stop lineNo : Nat) (labels : List Label) (seen : Option (List String))
    (i : Nat) : (plain bytes).parseLabelName stop lineNo labels seen i =
      PromScrape.parseLabelName bytes stop lineNo labels seen i := by
  rw [parseLabelName, PromScrape.parseLabelName, skip_plain]
  rfl

theorem expectByte_plain (stop lineNo : Nat) (c : UInt8) (kind : ParseErrorKind) (i : Nat) :
    (plain bytes).expectByte stop lineNo c kind i =
      PromScrape.expectByte bytes stop lineNo c kind i := by
  rw [expectByte, PromScrape.expectByte, skip_plain]
  rfl

theorem parseLabelsLoop_plain (stop lineNo n i : Nat) (labels : List Label)
    (seen : Option (List String)) :
    (plain bytes).parseLabelsLoop stop lineNo n i labels seen =
      PromScrape.parseLabelsLoop bytes stop lineNo n i labels seen := by
  induction n generalizing i labels seen with
  | zero => rfl
  | succ n ih =>
      rw [parseLabelsLoop, PromScrape.parseLabelsLoop]
      simp only [ih, skip_plain, parseLabelName_plain, expectByte_plain, parseLabelValue_plain]
      rfl

theorem parseSample_plain (nameStart stop lineNo : Nat) (defaultTimestampMs : Int64)
    (honorTimestamps : Bool) :
    (plain bytes).parseSample nameStart stop lineNo defaultTimestampMs honorTimestamps =
      PromScrape.parseSample bytes nameStart stop lineNo defaultTimestampMs honorTimestamps := by
  rw [parseSample, PromScrape.parseSample]
  simp only [parseLineLabels, PromScrape.parseLineLabels, parseLabels, PromScrape.parseLabels,
    parseLineValue, PromScrape.parseLineValue, parseLineTimestamp, PromScrape.parseLineTimestamp,
    parseLineEnd, PromScrape.parseLineEnd, skip_plain, parseLabelsLoop_plain]
  rfl

theorem parseLine_plain (start stop lineNo : Nat) (defaultTimestampMs : Int64)
    (honorTimestamps : Bool) :
    (plain bytes).parseLine start stop lineNo defaultTimestampMs honorTimestamps =
      PromScrape.parseLine bytes start stop lineNo defaultTimestampMs honorTimestamps := by
  rw [parseLine, PromScrape.parseLine]
  simp only [skip_plain, parseSample_plain]
  rfl

theorem lineEndFrom_plain (pos : Nat) :
    (plain bytes).lineEndFrom bytes.length pos = .ok (PromScrape.lineEndFrom bytes pos) := by
  have hrest : Scan.slice bytes pos bytes.length = bytes.drop pos := by
    rw [Scan.slice, List.take_length]
  have hread : (plain bytes).slice pos bytes.length = .ok (Scan.slice bytes pos bytes.length) := rfl
  rw [lineEndFrom, PromScrape.lineEndFrom, ← hrest, hread, ok_bind]
  cases memchr (byte '\n') (Scan.slice bytes pos bytes.length) <;> rfl

theorem parseFrom_plain (defaultTimestampMs : Int64) (honorTimestamps : Bool)
    (n lineNo pos : Nat) (out : List TimeSeries) :
    (plain bytes).parseFrom bytes.length defaultTimestampMs honorTimestamps n lineNo pos out =
      PromScrape.parseFrom bytes defaultTimestampMs honorTimestamps n lineNo pos out := by
  induction n generalizing lineNo pos out with
  | zero => rfl
  | succ n ih =>
      rw [parseFrom, PromScrape.parseFrom]
      simp only [ih, lineEndFrom_plain, parseLine_plain]
      rfl

/-- **The parser is the plain one.** -/
theorem parse_plain (body : String) (defaultTimestampMs : Int64) (honorTimestamps : Bool) :
    (plain (utf8Bytes body)).parse (utf8Bytes body).length defaultTimestampMs honorTimestamps =
      PromScrape.parse body defaultTimestampMs honorTimestamps :=
  parseFrom_plain _ _ _ _ _ _ _

end

/-! ## Reads at a cursor -/

/-- Where a read of the body is possible, `A` makes it. -/
structure Reads (A : Access) (bytes : List UInt8) : Prop where
  byteAt : ∀ {i b}, bytes[i]? = some b → A.byteAt i = .ok b
  slice : ∀ {i j}, IsSlice bytes i j → A.slice i j = .ok (Scan.slice bytes i j)
  window : ∀ {i j}, i ≤ j → j ≤ bytes.length → A.window i j = .ok (Scan.slice bytes i j)
  text : ∀ {i j s}, Scan.get bytes i j = some s → A.text i j = .ok (some s)

theorem byteAt_of_getElem? {bytes : List UInt8} {i : Nat} {b : UInt8} (h : bytes[i]? = some b) :
    PromScrape.byteAt bytes i = .ok b := by
  rw [PromScrape.byteAt, h]
  rfl

theorem reads_plain (bytes : List UInt8) : Reads (plain bytes) bytes where
  byteAt := byteAt_of_getElem?
  slice := fun _ => rfl
  window := fun _ _ => rfl
  text := fun h => congrArg Except.ok h

theorem reads_checked (bytes : List UInt8) : Reads (checked false bytes) bytes where
  byteAt := byteAt_of_getElem?
  slice := fun h => if_pos h
  window := fun hi hj => if_pos ⟨hi, hj, fun h => absurd h Bool.false_ne_true⟩
  text := by
    intro i j s h
    show (orPanic (Scan.get bytes i j)).map some = _
    rw [h]
    rfl

theorem isSlice_at {bytes : List UInt8} {stop i : Nat} {cs : List Char} (h : At bytes stop i cs) :
    IsSlice bytes i stop := ⟨h.le, h.length_le, h.isCharBoundary, h.boundary_stop⟩

section

variable {A : Access} {bytes : List UInt8} {stop i : Nat} {cs xs ys : List Char}

theorem Reads.byteAt_at (hA : Reads A bytes) {c : Char} (h : At bytes stop i (c :: cs)) :
    A.byteAt i = .ok (headByte c) := hA.byteAt h.getElem?

theorem Reads.skipFrom_eq (hA : Reads A bytes) (p : UInt8 → Bool) {n i : Nat}
    (h : i + n ≤ bytes.length) : A.skipFrom p n i = orPanic (Scan.advance p bytes n i) := by
  induction n generalizing i with
  | zero => rfl
  | succ n ih =>
      have hi : i < bytes.length := by omega
      have hbyte := List.getElem?_eq_getElem hi
      rw [skipFrom, hA.byteAt hbyte, ok_bind, Scan.advance, hbyte]
      dsimp only
      split
      · exact ih (by omega)
      · rfl

theorem Reads.skip_at (hA : Reads A bytes) {p : UInt8 → Bool} {q : Char → Bool}
    (h : At bytes stop i cs) (hpq : Uniform p q) :
    A.skip stop p i = .ok (i + (encode (cs.takeWhile q)).length) := by
  have hle := h.le
  have hlen := h.length_le
  rw [skip, hA.skipFrom_eq p (by omega)]
  exact PromScrape.skip_at h hpq

theorem Reads.lookingAt_nil (h : At bytes stop i []) (b : UInt8) : A.lookingAt stop i b = .ok false := by
  rw [lookingAt, if_neg (by rw [h.eq_stop]; exact Nat.lt_irrefl _)]

theorem Reads.lookingAt_cons (hA : Reads A bytes) {a c : Char} (ha : a.toNat < 128)
    (h : At bytes stop i (c :: cs)) : A.lookingAt stop i (byte a) = .ok (c == a) := by
  rw [lookingAt, if_pos h.lt_stop, hA.byteAt_at h, ← headByte_beq ha c]
  rfl

theorem Reads.strFrom_at (hA : Reads A bytes) (h : At bytes stop i (xs ++ ys)) :
    A.strFrom i (i + (encode xs).length) = .ok (String.ofList xs) := by
  rw [strFrom, hA.text h.get_take]
  rfl

theorem Reads.utf8From_at (hA : Reads A bytes) (h : At bytes stop i (xs ++ ys)) (line : Nat) :
    A.utf8From i (i + (encode xs).length) line = .ok (String.ofList xs) := by
  rw [utf8From, hA.text h.get_take]
  rfl

/-- Blanks are skipped. -/
theorem Reads.skipBlanks_at (hA : Reads A bytes) (h : At bytes stop i cs) :
    ∃ j, A.skip stop isSpace i = .ok j ∧ At bytes stop j (skipBlanks cs) :=
  ⟨_, hA.skip_at h uniform_isSpace, h.dropWhile isBlank⟩

/-- A token is what stands before the next blank. -/
theorem Reads.token_at (hA : Reads A bytes) (h : At bytes stop i cs) :
    ∃ j, A.skip stop (!isSpace ·) i = .ok j ∧
      A.strFrom i j = .ok (String.ofList (cs.takeWhile (!isBlank ·))) ∧
      At bytes stop j (cs.dropWhile (!isBlank ·)) := by
  refine ⟨_, hA.skip_at h uniform_notSpace, ?_, h.dropWhile (!isBlank ·)⟩
  rw [← List.takeWhile_append_dropWhile (p := (!isBlank ·)) (l := cs)] at h
  exact hA.strFrom_at h

/-- A name, from its second character on. -/
theorem Reads.name_at (hA : Reads A bytes) {colon : Bool} {c : Char} (h : At bytes stop i (c :: cs))
    (hhead : isNameHead colon c = true) :
    ∃ j, A.skip stop (isNameContinue · colon) (i + 1) = .ok j ∧
      A.strFrom i j = .ok (String.ofList (c :: cs.takeWhile (isNameTail colon))) ∧
      At bytes stop j (cs.dropWhile (isNameTail colon)) := by
  have hascii := isNameHead_ascii hhead
  obtain ⟨hskip, hname⟩ := PromScrape.skipName_at h hhead
  refine ⟨_, ?_, hA.strFrom_at hname, hname.drop⟩
  rw [hA.skip_at (h.next hascii) (uniform_isNameContinue colon), ← hskip,
    PromScrape.skip_at (h.next hascii) (uniform_isNameContinue colon)]

end

/-! ## Twin runs -/

/-- Two runs that agree, each failing on its own line. -/
inductive Twin {α β : Type} (line line' : Nat) (R : α → β → Prop) :
    Except ParseFail α → Except ParseFail β → Prop where
  | ok {a : α} {b : β} (h : R a b) : Twin line line' R (.ok a) (.ok b)
  | fail {kind : ParseErrorKind} (h : kind ≠ .invalidBoundary) :
      Twin line line' R (parseError line kind) (parseError line' kind)

theorem Twin.bind {α β γ δ : Type} {line line' : Nat} {R : α → β → Prop} {S : γ → δ → Prop}
    {x : Except ParseFail α} {y : Except ParseFail β} {f : α → Except ParseFail γ}
    {g : β → Except ParseFail δ} (h : Twin line line' R x y)
    (hfg : ∀ a b, R a b → Twin line line' S (f a) (g b)) :
    Twin line line' S (x >>= f) (y >>= g) := by
  cases h with
  | ok h => exact hfg _ _ h
  | fail h => exact .fail h

theorem Twin.mono {α β : Type} {line line' : Nat} {R S : α → β → Prop} {x : Except ParseFail α}
    {y : Except ParseFail β} (h : Twin line line' R x y) (hRS : ∀ a b, R a b → S a b) :
    Twin line line' S x y := by
  cases h with
  | ok h => exact .ok (hRS _ _ h)
  | fail h => exact .fail h

/-- Two cursors before the same end of a text. -/
def Beside (bytes : List UInt8) (stop : Nat) (bytes' : List UInt8) (stop' : Nat) (cs : List Char)
    (i i' : Nat) : Prop :=
  ∃ rest, rest <:+ cs ∧ At bytes stop i rest ∧ At bytes' stop' i' rest

theorem getElem?_slice {bytes : List UInt8} {i stop k : Nat} (h : i + k < stop) :
    (Scan.slice bytes i stop)[k]? = bytes[i + k]? := by
  rw [Scan.slice, List.getElem?_drop, List.getElem?_take_of_lt h]

theorem slice_add_eq_drop (bytes : List UInt8) (i k stop : Nat) :
    Scan.slice bytes (i + k) stop = (Scan.slice bytes i stop).drop k := by
  rw [Scan.slice, Scan.slice, List.drop_drop]

section

variable {A A' : Access} {bytes bytes' : List UInt8} {stop stop' : Nat} (line line' : Nat)

/-- The scan for the closing quote looks at the bytes alone. -/
theorem twin_scanQuote (hA : Reads A bytes) (hA' : Reads A' bytes') (hstop : stop ≤ bytes.length)
    (hstop' : stop' ≤ bytes'.length) (n : Nat) :
    ∀ {i i' : Nat} (hasEscape : Bool), i ≤ stop → i' ≤ stop' →
      Scan.slice bytes i stop = Scan.slice bytes' i' stop' → stop - i < n →
      Twin line line' (fun a b => a.1 + i' = b.1 + i ∧ a.2 = b.2)
        (A.scanQuote stop line n i hasEscape) (A'.scanQuote stop' line' n i' hasEscape) := by
  induction n with
  | zero =>
      intro i i' hasEscape _ _ _ hn
      omega
  | succ n ih =>
      intro i i' hasEscape hi hi' hslice hn
      have hlen : stop - i = stop' - i' := by
        rw [← length_slice hstop, hslice, length_slice hstop']
      rw [scanQuote, scanQuote, hA.window hi hstop, hA'.window hi' hstop', ok_bind, ok_bind, ← hslice]
      cases hfound : memchr2 (byte '"') (byte '\\') (Scan.slice bytes i stop) with
      | none => exact .fail (by simp)
      | some offset =>
          have hoffset : offset < (Scan.slice bytes i stop).length :=
            (List.findIdx?_eq_some_iff_getElem.mp hfound).1
          have hbyte := List.getElem?_eq_getElem hoffset
          generalize (Scan.slice bytes i stop)[offset] = b at hbyte
          rw [length_slice hstop] at hoffset
          have hin : i + offset < stop := by omega
          have hin' : i' + offset < stop' := by omega
          have hleft : bytes[i + offset]? = some b := by
            rw [← getElem?_slice hin, hbyte]
          have hright : bytes'[i' + offset]? = some b := by
            rw [← getElem?_slice hin', ← hslice, hbyte]
          dsimp only
          rw [hA.byteAt hleft, hA'.byteAt hright, ok_bind, ok_bind]
          by_cases hquote : (b == byte '"') = true
          · rw [if_pos hquote, if_pos hquote]
            exact .ok ⟨by omega, rfl⟩
          rw [if_neg hquote, if_neg hquote]
          by_cases hend : stop ≤ i + offset + 1
          · rw [if_pos hend, if_pos (by omega)]
            exact .fail (by simp)
          · rw [if_neg hend, if_neg (by omega)]
            -- past the escaped byte, which may be the first of several
            have hnext : Scan.slice bytes (i + offset + 2) stop =
                Scan.slice bytes' (i' + offset + 2) stop' := by
              rw [Nat.add_assoc, Nat.add_assoc, slice_add_eq_drop, hslice, ← slice_add_eq_drop]
            refine (ih true (by omega) (by omega) hnext (by omega)).mono ?_
            rintro a b ⟨hclose, hescape⟩
            exact ⟨by omega, hescape⟩

/-- The scan in terms of the text. -/
theorem Reads.scanQuote_at (hA : Reads A bytes) {i : Nat} {cs : List Char} (h : At bytes stop i cs) :
    Agrees line (fun a r => a = (i + (encode r.1).length, r.1.contains '\\'))
      (A.scanQuote stop line (stop + 1 - i) i false) (readRaw cs) := by
  have hle := h.le
  have hlen := h.length_chars_le
  have htwin := twin_scanQuote line line hA (reads_plain bytes) h.length_le h.length_le
    (stop + 1 - i) false h.le h.le rfl (by omega)
  have hslice : Scan.slice bytes i stop = [] ++ encode cs := h.slice_eq
  have hplain := scanQuote_agrees line h.length_le (stop + 1 - i) false h.le hslice (by simp)
    (by omega)
  rw [scanQuote_plain] at htwin
  generalize A.scanQuote stop line (stop + 1 - i) i false = x at htwin ⊢
  generalize PromScrape.scanQuote bytes stop line (stop + 1 - i) i false = y at htwin hplain
  cases htwin with
  | ok heq =>
      cases hread : readRaw cs with
      | none =>
          rw [hread] at hplain
          exact hplain
      | some r =>
          rw [hread] at hplain
          simp only [Agrees, List.length_nil, Nat.add_zero, Bool.false_or] at hplain
          subst hplain
          exact Prod.ext (by simpa using heq.1) heq.2
  | fail hkind =>
      cases hread : readRaw cs with
      | none => exact Agrees.fail hkind
      | some r =>
          rw [hread] at hplain
          exact hplain

theorem twin_escapeChar (e : Char) :
    Twin line line' (fun s t => s = t ∧ e.toNat < 128) (escapeChar line (headByte e))
      (escapeChar line' (headByte e)) := by
  rw [escapeChar, escapeChar, headByte_beq (by decide), headByte_beq (by decide),
    headByte_beq (by decide)]
  by_cases h₁ : e = '\\'
  · subst h₁
    exact .ok ⟨rfl, by decide⟩
  by_cases h₂ : e = '"'
  · subst h₂
    exact .ok ⟨rfl, by decide⟩
  by_cases h₃ : e = 'n'
  · subst h₃
    exact .ok ⟨rfl, by decide⟩
  simp only [beq_iff_eq, h₁, h₂, h₃, if_false]
  exact .fail (by simp)

/-- The unescaping loop, over one raw value in two bodies. -/
theorem twin_unescape (hA : Reads A bytes) (hA' : Reads A' bytes') {raw : List UInt8}
    {start start' close close' : Nat} (n : Nat) :
    ∀ {j : Nat} {cs : List Char} (decoded : String), At raw raw.length j cs →
      At bytes close (start + j) cs → At bytes' close' (start' + j) cs → Closed cs →
      cs.length ≤ n →
      Twin line line' Eq (A.unescape start raw line n j decoded)
        (A'.unescape start' raw line' n j decoded) := by
  induction n with
  | zero =>
      intro j cs decoded hraw _ _ _ hn
      obtain rfl := List.length_eq_zero_iff.mp (Nat.le_zero.mp hn)
      have hend := Nat.le_of_eq hraw.eq_stop.symm
      rw [unescape, unescape, if_pos hend]
      exact .ok rfl
  | succ n ih =>
      intro j cs decoded hraw hbody hbody' hclosed hn
      rcases cs with _ | ⟨c, cs⟩
      · have hend := Nat.le_of_eq hraw.eq_stop.symm
        rw [unescape, unescape, if_pos hend, if_pos hend]
        exact .ok rfl
      have hin := Nat.not_le.mpr hraw.lt_stop
      rw [unescape, unescape, if_neg hin, if_neg hin, PromScrape.byteAt_at hraw, ok_bind, ok_bind,
        headByte_beq (by decide)]
      by_cases hescape : c = '\\'
      · subst hescape
        -- the escaped character is there in both
        obtain ⟨e, cs, rfl, hrest⟩ := hclosed.tail_escape
        have hraw₁ := hraw.next (by decide)
        rw [if_pos (by decide), if_pos (by decide), PromScrape.byteAt_at hraw₁, ok_bind, ok_bind]
        refine (twin_escapeChar line line' e).bind ?_
        rintro s _ ⟨rfl, he⟩
        rw [List.length_cons, List.length_cons] at hn
        have hbody₂ := (hbody.next (by decide)).next he
        have hbody₂' := (hbody'.next (by decide)).next he
        rw [Nat.add_assoc, Nat.add_assoc] at hbody₂ hbody₂'
        exact ih _ (hraw₁.next he) hbody₂ hbody₂' hrest (by omega)
      · have hplain : ¬ (c == '\\') = true := by simpa using hescape
        rw [if_neg hplain, if_neg hplain]
        have hsplit : (c :: cs).takeWhile (· != '\\') ++ (c :: cs).dropWhile (· != '\\') =
            c :: cs := List.takeWhile_append_dropWhile
        have hrun := all_takeWhile (· != '\\') (c :: cs)
        have hshort := length_dropRun_le hescape hn
        rw [PromScrape.skip_at hraw uniform_notBackslash, ok_bind, ok_bind]
        generalize (c :: cs).takeWhile (· != '\\') = run at hsplit hrun
        generalize (c :: cs).dropWhile (· != '\\') = rest at hsplit hshort
        rw [← hsplit] at hraw hbody hbody' hclosed
        rw [← Nat.add_assoc, ← Nat.add_assoc, hA.utf8From_at hbody, hA'.utf8From_at hbody', ok_bind,
          ok_bind]
        have hbody₂ := hbody.drop
        have hbody₂' := hbody'.drop
        rw [Nat.add_assoc] at hbody₂ hbody₂'
        exact ih _ hraw.drop hbody₂ hbody₂' (hclosed.drop_run hrun) hshort

/-- A closed value is copied as it stands unless a backslash is in it. -/
theorem Reads.parseLabelValue_closed (hA : Reads A bytes) {i : Nat} {cs raw rest : List Char}
    (h : At bytes stop i ('"' :: cs)) (hread : readRaw cs = some (raw, rest)) :
    A.parseLabelValue i stop line =
      (if '\\' ∈ raw then A.unescape (i + 1) (encode raw) line (encode raw).length 0 ""
        else .ok (String.ofList raw)) >>= fun s => .ok (s, i + 1 + (encode raw).length + 1) := by
  have hcontent := h.next (by decide)
  have hscan := hA.scanQuote_at line hcontent
  rw [parseLabelValue]
  dsimp only
  generalize A.scanQuote stop line (stop + 1 - (i + 1)) (i + 1) false = x at hscan ⊢
  rw [hread] at hscan
  obtain rfl := readRaw_eq_append hread
  match x, hscan with
  | .ok _, rfl =>
      rw [ok_bind]
      dsimp only
      by_cases hescape : '\\' ∈ raw
      · have hslice : Scan.slice bytes (i + 1) (i + 1 + (encode raw).length) = encode raw :=
          hcontent.take.slice_eq
        rw [if_neg (by simpa using hescape), if_pos hescape, hA.slice (isSlice_at hcontent.take),
          ok_bind, hslice]
      · rw [if_pos (by simpa using hescape), if_neg hescape, hA.utf8From_at hcontent]

theorem twin_parseLabelValue (hA : Reads A bytes) (hA' : Reads A' bytes') {i i' : Nat}
    {cs : List Char} (h : At bytes stop i ('"' :: cs)) (h' : At bytes' stop' i' ('"' :: cs)) :
    Twin line line' (fun a b => a.1 = b.1 ∧ Beside bytes stop bytes' stop' cs a.2 b.2)
      (A.parseLabelValue i stop line) (A'.parseLabelValue i' stop' line') := by
  have hcontent := h.next (by decide)
  have hcontent' := h'.next (by decide)
  cases hread : readRaw cs with
  | none =>
      have hlen := hcontent.stop_eq
      have hlen' := hcontent'.stop_eq
      have hscan := hA.scanQuote_at line hcontent
      have htwin := twin_scanQuote line line' hA hA' h.length_le h'.length_le
        (stop + 1 - (i + 1)) false hcontent.le hcontent'.le
        (hcontent.slice_eq.trans hcontent'.slice_eq.symm) (by omega)
      rw [parseLabelValue, parseLabelValue]
      dsimp only
      rw [show stop' + 1 - (i' + 1) = stop + 1 - (i + 1) by omega]
      rw [hread] at hscan
      generalize A.scanQuote stop line (stop + 1 - (i + 1)) (i + 1) false = x at hscan htwin
      generalize A'.scanQuote stop' line' (stop + 1 - (i + 1)) (i' + 1) false = y at htwin
      cases htwin with
      | ok _ => exact absurd hscan id
      | fail hkind => exact .fail hkind
  | some r =>
      obtain ⟨raw, rest⟩ := r
      rw [hA.parseLabelValue_closed line h hread, hA'.parseLabelValue_closed line' h' hread]
      have hclosed := Closed.of_readRaw hread
      obtain rfl := readRaw_eq_append hread
      have hvalue : Twin line line' Eq
          (if '\\' ∈ raw then A.unescape (i + 1) (encode raw) line (encode raw).length 0 ""
            else .ok (String.ofList raw))
          (if '\\' ∈ raw then A'.unescape (i' + 1) (encode raw) line' (encode raw).length 0 ""
            else .ok (String.ofList raw)) := by
        have hraw := Scan.at_encode raw
        split
        · exact twin_unescape line line' hA hA' _ "" hraw hcontent.take hcontent'.take hclosed
            (by simpa using hraw.length_chars_le)
        · exact .ok rfl
      refine hvalue.bind ?_
      rintro s _ rfl
      exact .ok ⟨rfl, rest, (List.suffix_cons _ _).trans (List.suffix_append _ _),
        hcontent.drop.next (by decide), hcontent'.drop.next (by decide)⟩

/-! ## Label sets -/

theorem twin_checkLabelName (name : String) (labels : List Label) (seen : Option (List String)) :
    Twin line line' (fun _ _ => True) (checkLabelName name line labels seen)
      (checkLabelName name line' labels seen) := by
  simp only [checkLabelName]
  split_ifs
  · exact .fail (by simp)
  · exact .fail (by simp)
  · exact .ok trivial

theorem twin_parseLabelName (hA : Reads A bytes) (hA' : Reads A' bytes') {i i' : Nat} {c : Char}
    {cs : List Char} (h : At bytes stop i (c :: cs)) (h' : At bytes' stop' i' (c :: cs))
    (labels : List Label) (seen : Option (List String)) :
    Twin line line' (fun a b => a.1 = b.1 ∧ Beside bytes stop bytes' stop' cs a.2 b.2)
      (A.parseLabelName stop line labels seen i) (A'.parseLabelName stop' line' labels seen i') := by
  rw [parseLabelName, parseLabelName, hA.byteAt_at h, hA'.byteAt_at h', ok_bind, ok_bind,
    (uniform_isNameStart false).headByte]
  by_cases hhead : isNameHead false c = true
  · obtain ⟨j, hskip, hname, hat⟩ := hA.name_at h hhead
    obtain ⟨j', hskip', hname', hat'⟩ := hA'.name_at h' hhead
    have hneg : ¬ (!isNameHead false c) = true := by simp [hhead]
    rw [if_neg hneg, if_neg hneg, hskip, hskip', ok_bind, ok_bind, hname, hname', ok_bind, ok_bind]
    generalize String.ofList (c :: cs.takeWhile (isNameTail false)) = name
    by_cases hmetric : name = metricNameLabel
    · rw [if_pos hmetric, if_pos hmetric]
      exact .fail (by simp)
    · rw [if_neg hmetric, if_neg hmetric]
      refine (twin_checkLabelName line line' name labels seen).bind ?_
      intro _ _ _
      exact .ok ⟨rfl, _, List.dropWhile_suffix _, hat, hat'⟩
  · have hpos : (!isNameHead false c) = true := by simpa using hhead
    rw [if_pos hpos, if_pos hpos]
    exact .fail (by simp)

theorem twin_expectByte (hA : Reads A bytes) (hA' : Reads A' bytes') {i i' : Nat} {a : Char}
    (ha : a.toNat < 128) {kind : ParseErrorKind} (hkind : kind ≠ .invalidBoundary) {cs : List Char}
    (h : At bytes stop i cs) (h' : At bytes' stop' i' cs) :
    Twin line line'
      (fun j j' => ∃ rest, a :: rest <:+ cs ∧ At bytes stop (j - 1) (a :: rest) ∧
        At bytes' stop' (j' - 1) (a :: rest) ∧ At bytes stop j rest ∧ At bytes' stop' j' rest)
      (A.expectByte stop line (byte a) kind i) (A'.expectByte stop' line' (byte a) kind i') := by
  obtain ⟨j, hskip, hat⟩ := hA.skipBlanks_at h
  obtain ⟨j', hskip', hat'⟩ := hA'.skipBlanks_at h'
  have hsuffix : skipBlanks cs <:+ cs := List.dropWhile_suffix _
  rw [expectByte, expectByte, hskip, hskip', ok_bind, ok_bind]
  generalize skipBlanks cs = blank at hat hat' hsuffix
  rcases blank with _ | ⟨c, rest⟩
  · rw [Reads.lookingAt_nil hat, Reads.lookingAt_nil hat']
    exact .fail hkind
  rw [hA.lookingAt_cons ha hat, hA'.lookingAt_cons ha hat', ok_bind, ok_bind]
  by_cases hc : c = a
  · subst hc
    rw [if_pos (beq_self_eq_true c), if_pos (beq_self_eq_true c)]
    exact .ok ⟨rest, hsuffix, hat, hat', hat.next ha, hat'.next ha⟩
  · have hneg : ¬ (c == a) = true := by simpa using hc
    rw [if_neg hneg, if_neg hneg]
    exact .fail hkind

theorem twin_parseLabelsLoop (hA : Reads A bytes) (hA' : Reads A' bytes') (n : Nat) :
    ∀ {i i' : Nat} {cs : List Char} (labels : List Label) (seen : Option (List String)),
      At bytes stop i cs → At bytes' stop' i' cs → cs.length < n →
      Twin line line' (fun a b => a.2 = b.2 ∧ Beside bytes stop bytes' stop' cs a.1 b.1)
        (A.parseLabelsLoop stop line n i labels seen)
        (A'.parseLabelsLoop stop' line' n i' labels seen) := by
  induction n with
  | zero =>
      intro i i' cs labels seen _ _ hn
      omega
  | succ n ih =>
      intro i i' cs labels seen h h' hn
      obtain ⟨j, hskip, hat⟩ := hA.skipBlanks_at h
      obtain ⟨j', hskip', hat'⟩ := hA'.skipBlanks_at h'
      have hsuffix : skipBlanks cs <:+ cs := List.dropWhile_suffix _
      rw [parseLabelsLoop, parseLabelsLoop, hskip, hskip', ok_bind, ok_bind]
      generalize skipBlanks cs = blank at hat hat' hsuffix
      rcases blank with _ | ⟨c, rest⟩
      · rw [if_pos (Nat.le_of_eq hat.eq_stop.symm), if_pos (Nat.le_of_eq hat'.eq_stop.symm)]
        exact .fail (by simp)
      rw [if_neg (Nat.not_le.mpr hat.lt_stop), if_neg (Nat.not_le.mpr hat'.lt_stop),
        hA.byteAt_at hat, hA'.byteAt_at hat', ok_bind, ok_bind]
      by_cases hbrace : c = '}'
      · subst hbrace
        rw [if_pos (by decide), if_pos (by decide)]
        exact .ok ⟨rfl, rest, (List.suffix_cons _ _).trans hsuffix, hat.next (by decide),
          hat'.next (by decide)⟩
      have hneg : ¬ (headByte c == byte '}') = true := by
        rw [headByte_beq (by decide)]
        simpa using hbrace
      rw [if_neg hneg, if_neg hneg]
      -- name, `=`, opening quote and value, each from where the last one ended
      refine (twin_parseLabelName line line' hA hA' hat hat' labels seen).bind ?_
      rintro ⟨name, i₁⟩ ⟨_, i₁'⟩ ⟨rfl, cs₁, hs₁, h₁, h₁'⟩
      refine (twin_expectByte line line' hA hA' (a := '=') (by decide) (by simp) h₁ h₁').bind ?_
      rintro i₂ i₂' ⟨cs₂, hs₂, -, -, h₂, h₂'⟩
      refine (twin_expectByte line line' hA hA' (a := '"') (by decide) (by simp) h₂ h₂').bind ?_
      rintro i₃ i₃' ⟨cs₃, hs₃, h₃, h₃', -, -⟩
      refine (twin_parseLabelValue line line' hA hA' h₃ h₃').bind ?_
      rintro ⟨value, i₄⟩ ⟨_, i₄'⟩ ⟨rfl, cs₄, hs₄, h₄, h₄'⟩
      obtain ⟨j₅, hskip₅, h₅⟩ := hA.skipBlanks_at h₄
      obtain ⟨j₅', hskip₅', h₅'⟩ := hA'.skipBlanks_at h₄'
      have hs₅ : skipBlanks cs₄ <:+ cs := (List.dropWhile_suffix _).trans <| hs₄.trans <|
        (List.suffix_cons _ _).trans <| hs₃.trans <| (List.suffix_cons _ _).trans <|
        hs₂.trans <| hs₁.trans <| (List.suffix_cons _ _).trans hsuffix
      dsimp only
      rw [hskip₅, hskip₅', ok_bind, ok_bind]
      generalize skipBlanks cs₄ = cs₅ at h₅ h₅' hs₅
      rcases cs₅ with _ | ⟨d, rest⟩
      · rw [if_pos (Nat.le_of_eq h₅.eq_stop.symm), if_pos (Nat.le_of_eq h₅'.eq_stop.symm)]
        exact .fail (by simp)
      have hshort := hs₅.length_le
      have hrest : rest <:+ cs := (List.suffix_cons _ _).trans hs₅
      rw [List.length_cons] at hshort
      rw [if_neg (Nat.not_le.mpr h₅.lt_stop), if_neg (Nat.not_le.mpr h₅'.lt_stop),
        hA.byteAt_at h₅, hA'.byteAt_at h₅', ok_bind, ok_bind, headByte_beq (by decide),
        headByte_beq (by decide)]
      by_cases hcomma : d = ','
      · subst hcomma
        rw [if_pos (by decide), if_pos (by decide)]
        refine (ih _ _ (h₅.next (by decide)) (h₅'.next (by decide)) (by omega)).mono ?_
        rintro a b ⟨heq, end₆, hs₆, h₆, h₆'⟩
        exact ⟨heq, end₆, hs₆.trans hrest, h₆, h₆'⟩
      have hneg : ¬ (d == ',') = true := by simpa using hcomma
      rw [if_neg hneg, if_neg hneg]
      by_cases hclose : d = '}'
      · subst hclose
        rw [if_pos (by decide), if_pos (by decide)]
        exact .ok ⟨rfl, rest, hrest, h₅.next (by decide), h₅'.next (by decide)⟩
      · have hneg : ¬ (d == '}') = true := by simpa using hclose
        rw [if_neg hneg, if_neg hneg]
        exact .fail (by simp)

/-! ## Lines -/

theorem twin_parseLineLabels (hA : Reads A bytes) (hA' : Reads A' bytes') {i i' k k' : Nat}
    {cs : List Char} (hend : At bytes stop k cs) (hend' : At bytes' stop' k' cs)
    (h : At bytes stop i (skipBlanks cs)) (h' : At bytes' stop' i' (skipBlanks cs))
    (labels : List Label) :
    Twin line line'
      (fun a b => Beside bytes stop bytes' stop' cs a.1 b.1 ∧ a.2.1 = b.2.1 ∧
        Beside bytes stop bytes' stop' cs a.2.2 b.2.2)
      (A.parseLineLabels stop line k i labels) (A'.parseLineLabels stop' line' k' i' labels) := by
  have hsuffix : skipBlanks cs <:+ cs := List.dropWhile_suffix _
  have hrest : Beside bytes stop bytes' stop' cs i i' := ⟨_, hsuffix, h, h'⟩
  have hstart : Beside bytes stop bytes' stop' cs k k' := ⟨cs, List.suffix_refl cs, hend, hend'⟩
  rw [parseLineLabels, parseLineLabels]
  generalize skipBlanks cs = blank at h h' hsuffix
  rcases blank with _ | ⟨c, rest⟩
  · rw [Reads.lookingAt_nil h, Reads.lookingAt_nil h']
    exact .ok ⟨hstart, rfl, hrest⟩
  rw [hA.lookingAt_cons (by decide) h, hA'.lookingAt_cons (by decide) h', ok_bind, ok_bind]
  by_cases hbrace : c = '{'
  · subst hbrace
    have hrounds : stop - i = stop' - i' := by
      rw [h.stop_eq, h'.stop_eq, Nat.add_sub_cancel_left, Nat.add_sub_cancel_left]
    have hlen := h.length_chars_le
    rw [List.length_cons] at hlen
    rw [if_pos (by decide), if_pos (by decide), parseLabels, parseLabels, ← hrounds]
    refine (twin_parseLabelsLoop line line' hA hA' (stop - i) labels none (h.next (by decide))
      (h'.next (by decide)) (by omega)).bind ?_
    rintro ⟨close, labels⟩ ⟨close', _⟩ ⟨rfl, after, hs, hclose, hclose'⟩
    obtain ⟨j, hskip, hat⟩ := hA.skipBlanks_at hclose
    obtain ⟨j', hskip', hat'⟩ := hA'.skipBlanks_at hclose'
    have hafter : after <:+ cs := hs.trans ((List.suffix_cons _ _).trans hsuffix)
    dsimp only
    rw [hskip, hskip', ok_bind, ok_bind]
    exact .ok ⟨⟨after, hafter, hclose, hclose'⟩, rfl, _,
      (List.dropWhile_suffix _).trans hafter, hat, hat'⟩
  · have hneg : ¬ (c == '{') = true := by simpa using hbrace
    rw [if_neg hneg, if_neg hneg]
    exact .ok ⟨hstart, rfl, hrest⟩

/-- What was read from a token, and the place after the blanks that follow it. -/
theorem twin_afterToken {α : Type} (hA : Reads A bytes) (hA' : Reads A' bytes') {j j' : Nat}
    {cs rest : List Char} (hat : At bytes stop j rest) (hat' : At bytes' stop' j' rest)
    (hs : rest <:+ cs) (value : α) :
    Twin line line' (fun a b => a.1 = b.1 ∧ Beside bytes stop bytes' stop' cs a.2 b.2)
      (A.skip stop isSpace j >>= fun next => .ok (value, next))
      (A'.skip stop' isSpace j' >>= fun next => .ok (value, next)) := by
  obtain ⟨k, hblank, hnext⟩ := hA.skipBlanks_at hat
  obtain ⟨k', hblank', hnext'⟩ := hA'.skipBlanks_at hat'
  rw [hblank, hblank', ok_bind, ok_bind]
  exact .ok ⟨rfl, _, (List.dropWhile_suffix _).trans hs, hnext, hnext'⟩

theorem twin_parseLineValue (hA : Reads A bytes) (hA' : Reads A' bytes') {i i' : Nat}
    {cs : List Char} (h : At bytes stop i cs) (h' : At bytes' stop' i' cs) :
    Twin line line' (fun a b => a.1 = b.1 ∧ Beside bytes stop bytes' stop' cs a.2 b.2)
      (A.parseLineValue stop line i) (A'.parseLineValue stop' line' i') := by
  rw [parseLineValue, parseLineValue]
  rcases cs with _ | ⟨c, cs⟩
  · rw [if_pos (Nat.le_of_eq h.eq_stop.symm), if_pos (Nat.le_of_eq h'.eq_stop.symm)]
    exact .fail (by simp)
  obtain ⟨j, hskip, htok, hat⟩ := hA.token_at h
  obtain ⟨j', hskip', htok', hat'⟩ := hA'.token_at h'
  rw [if_neg (Nat.not_le.mpr h.lt_stop), if_neg (Nat.not_le.mpr h'.lt_stop), hskip, hskip', ok_bind,
    ok_bind, htok, htok', ok_bind, ok_bind]
  cases parseValue (String.ofList ((c :: cs).takeWhile (!isBlank ·))) with
  | none => exact .fail (by simp)
  | some value =>
      exact twin_afterToken line line' hA hA' hat hat' (List.dropWhile_suffix _) value

theorem twin_parseLineTimestamp (hA : Reads A bytes) (hA' : Reads A' bytes') {i i' : Nat}
    {cs : List Char} (h : At bytes stop i cs) (h' : At bytes' stop' i' cs) :
    Twin line line' (fun a b => a.1 = b.1 ∧ Beside bytes stop bytes' stop' cs a.2 b.2)
      (A.parseLineTimestamp stop line i) (A'.parseLineTimestamp stop' line' i') := by
  have hstart : Beside bytes stop bytes' stop' cs i i' := ⟨cs, List.suffix_refl cs, h, h'⟩
  rw [parseLineTimestamp, parseLineTimestamp]
  rcases cs with _ | ⟨c, cs⟩
  · rw [if_neg (Nat.not_lt.mpr (Nat.le_of_eq h.eq_stop.symm)),
      if_neg (Nat.not_lt.mpr (Nat.le_of_eq h'.eq_stop.symm))]
    exact .ok ⟨rfl, hstart⟩
  rw [if_pos h.lt_stop, if_pos h'.lt_stop, hA.byteAt_at h, hA'.byteAt_at h', ok_bind, ok_bind,
    headByte_beq (by decide)]
  by_cases hhash : c = '#'
  · have hpos : (c == '#') = true := by simpa using hhash
    rw [if_pos hpos, if_pos hpos]
    exact .ok ⟨rfl, hstart⟩
  have hneg : ¬ (c == '#') = true := by simpa using hhash
  obtain ⟨j, hskip, htok, hat⟩ := hA.token_at h
  obtain ⟨j', hskip', htok', hat'⟩ := hA'.token_at h'
  rw [if_neg hneg, if_neg hneg, hskip, hskip', ok_bind, ok_bind, htok, htok', ok_bind, ok_bind]
  cases parseTimestamp (String.ofList ((c :: cs).takeWhile (!isBlank ·))) with
  | none => exact .fail (by simp)
  | some parsed =>
      exact twin_afterToken line line' hA hA' hat hat' (List.dropWhile_suffix _) (some parsed)

/-- What is left of a line, as text. -/
theorem Reads.rest_at {A : Access} {bytes : List UInt8} {stop i : Nat} {cs : List Char}
    (hA : Reads A bytes) (h : At bytes stop i cs) : A.strFrom i stop = .ok (String.ofList cs) := by
  rw [h.stop_eq]
  rw [← List.append_nil cs] at h
  exact hA.strFrom_at h

theorem twin_parseLineEnd (hA : Reads A bytes) (hA' : Reads A' bytes') {i i' : Nat}
    {cs : List Char} (h : At bytes stop i cs) (h' : At bytes' stop' i' cs) :
    Twin line line' (fun _ _ => True) (A.parseLineEnd stop line i)
      (A'.parseLineEnd stop' line' i') := by
  rw [parseLineEnd, parseLineEnd]
  rcases cs with _ | ⟨c, cs⟩
  · rw [if_neg (Nat.not_lt.mpr (Nat.le_of_eq h.eq_stop.symm)),
      if_neg (Nat.not_lt.mpr (Nat.le_of_eq h'.eq_stop.symm))]
    exact .ok trivial
  rw [if_pos h.lt_stop, if_pos h'.lt_stop, hA.byteAt_at h, hA'.byteAt_at h', ok_bind, ok_bind,
    headByte_beq (by decide)]
  by_cases hhash : c = '#'
  · have hpos : (c == '#') = true := by simpa using hhash
    rw [if_pos hpos, if_pos hpos]
    exact .ok trivial
  · have hneg : ¬ (c == '#') = true := by simpa using hhash
    rw [if_neg hneg, if_neg hneg, hA.rest_at h, hA'.rest_at h', ok_bind, ok_bind]
    exact .fail (by simp)

theorem twin_parseSample (hA : Reads A bytes) (hA' : Reads A' bytes') {i i' : Nat} {c : Char}
    {cs : List Char} (h : At bytes stop i (c :: cs)) (h' : At bytes' stop' i' (c :: cs))
    (defaultTimestampMs : Int64) (honorTimestamps : Bool) :
    Twin line line' Eq (A.parseSample i stop line defaultTimestampMs honorTimestamps)
      (A'.parseSample i' stop' line' defaultTimestampMs honorTimestamps) := by
  rw [parseSample, parseSample, hA.byteAt_at h, hA'.byteAt_at h', ok_bind, ok_bind,
    (uniform_isNameStart true).headByte]
  by_cases hhead : isNameHead true c = true
  · obtain ⟨j, hskip, hname, hat⟩ := hA.name_at h hhead
    obtain ⟨j', hskip', hname', hat'⟩ := hA'.name_at h' hhead
    obtain ⟨k, hblank, hnext⟩ := hA.skipBlanks_at hat
    obtain ⟨k', hblank', hnext'⟩ := hA'.skipBlanks_at hat'
    have hneg : ¬ (!isNameHead true c) = true := by simp [hhead]
    have hs : cs.dropWhile (isNameTail true) <:+ c :: cs :=
      (List.dropWhile_suffix _).trans (List.suffix_cons _ _)
    rw [if_neg hneg, if_neg hneg, hskip, hskip', ok_bind, ok_bind, hname, hname', ok_bind, ok_bind,
      hblank, hblank', ok_bind, ok_bind]
    refine (twin_parseLineLabels line line' hA hA' hat hat' hnext hnext' _).bind ?_
    rintro ⟨identityEnd, labels, i₁⟩ ⟨identityEnd', _, i₁'⟩ ⟨hidentity, rfl, cs₁, -, h₁, h₁'⟩
    refine (twin_parseLineValue line line' hA hA' h₁ h₁').bind ?_
    rintro ⟨value, i₂⟩ ⟨_, i₂'⟩ ⟨rfl, cs₂, -, h₂, h₂'⟩
    refine (twin_parseLineTimestamp line line' hA hA' h₂ h₂').bind ?_
    rintro ⟨parsed, i₃⟩ ⟨_, i₃'⟩ ⟨rfl, cs₃, -, h₃, h₃'⟩
    refine (twin_parseLineEnd line line' hA hA' h₃ h₃').bind ?_
    intro _ _ _
    obtain ⟨after, hafter, hend, hend'⟩ := hidentity
    -- what is hashed is the same text
    obtain ⟨identity, hline⟩ := hafter.trans hs
    rw [← hline] at h h'
    dsimp only
    rw [hA.slice (isSlice_at (at_between h hend)), hA'.slice (isSlice_at (at_between h' hend')),
      ok_bind, ok_bind, slice_between h hend, slice_between h' hend']
    exact .ok rfl
  · have hpos : (!isNameHead true c) = true := by simpa using hhead
    rw [if_pos hpos, if_pos hpos]
    exact .fail (by simp)

/-- **The line parser reads the line alone.** -/
theorem twin_parseLine (hA : Reads A bytes) (hA' : Reads A' bytes') {i i' : Nat} {cs : List Char}
    (h : At bytes stop i cs) (h' : At bytes' stop' i' cs) (defaultTimestampMs : Int64)
    (honorTimestamps : Bool) :
    Twin line line' Eq (A.parseLine i stop line defaultTimestampMs honorTimestamps)
      (A'.parseLine i' stop' line' defaultTimestampMs honorTimestamps) := by
  obtain ⟨j, hskip, hat⟩ := hA.skipBlanks_at h
  obtain ⟨j', hskip', hat'⟩ := hA'.skipBlanks_at h'
  rw [parseLine, parseLine, hskip, hskip', ok_bind, ok_bind]
  generalize skipBlanks cs = blank at hat hat'
  rcases blank with _ | ⟨c, rest⟩
  · rw [if_pos (Nat.le_of_eq hat.eq_stop.symm), if_pos (Nat.le_of_eq hat'.eq_stop.symm)]
    exact .ok rfl
  rw [if_neg (Nat.not_le.mpr hat.lt_stop), if_neg (Nat.not_le.mpr hat'.lt_stop),
    hA.byteAt_at hat, hA'.byteAt_at hat', ok_bind, ok_bind]
  by_cases hhash : (headByte c == byte '#') = true
  · rw [if_pos hhash, if_pos hhash]
    exact .ok rfl
  rw [if_neg hhash, if_neg hhash]
  have htwin := twin_parseSample line line' hA hA' hat hat' defaultTimestampMs honorTimestamps
  generalize A.parseSample j stop line defaultTimestampMs honorTimestamps = x at htwin
  generalize A'.parseSample j' stop' line' defaultTimestampMs honorTimestamps = y at htwin
  cases htwin with
  | ok heq => exact .ok (congrArg some heq)
  | fail hkind => exact .fail hkind

end

end Access

end PromScrape
