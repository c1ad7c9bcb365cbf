import PromScrape.Proofs.LineReader

set_option autoImplicit false

/-! # The byte-level parser reads what the line reader reads

`Agrees` relates a run of the parser to the reader's result: a success to a success with related
values, an error on the current line to a refusal. It excludes panics and the error about character
boundaries, so both are ruled out along the way. -/

namespace PromScrape

open Utf8 (encode utf8Bytes)
open Scan (At Uniform headByte slice)

/-! ## Agreement -/

def Agrees {α β : Type} (line : Nat) (R : α → β → Prop) : Except ParseFail α → Option β → Prop
  | .ok a, some b => R a b
  | .error (.error e), none => e.line = line ∧ e.kind ≠ .invalidBoundary
  | _, _ => False

section

variable {α β γ δ : Type} {line : Nat} {R : α → β → Prop} {S : γ → δ → Prop}

theorem ok_bind {ε : Type} (a : α) (f : α → Except ε γ) : ((Except.ok a : Except ε α) >>= f) = f a :=
  rfl

theorem Agrees.ok {a : α} {b : β} (h : R a b) : Agrees line R (.ok a) (some b) := h

theorem Agrees.fail {kind : ParseErrorKind} (h : kind ≠ .invalidBoundary) :
    Agrees line R (parseError line kind) none := ⟨rfl, h⟩

theorem Agrees.bind {x : Except ParseFail α} {o : Option β} {f : α → Except ParseFail γ}
    {g : β → Option δ} (h : Agrees line R x o) (hfg : ∀ a b, R a b → Agrees line S (f a) (g b)) :
    Agrees line S (x >>= f) (o.bind g) := by
  match x, o, h with
  | .ok a, some b, h => exact hfg a b h
  | .error (.error _), none, h => exact h

theorem Agrees.and_eq {x : Except ParseFail α} {o : Option β} (h : Agrees line R x o) :
    Agrees line (fun a b => R a b ∧ o = some b) x o := by
  match x, o, h with
  | .ok _, some _, h => exact ⟨h, rfl⟩
  | .error (.error _), none, h => exact h

theorem Agrees.map {x : Except ParseFail α} {o : Option β} {f : α → γ} {g : β → δ}
    (h : Agrees line R x o) (hfg : ∀ a b, R a b → S (f a) (g b)) :
    Agrees line S (x.map f) (o.map g) := by
  match x, o, h with
  | .ok a, some b, h => exact hfg a b h
  | .error (.error _), none, h => exact h

theorem Agrees.map_right {x : Except ParseFail α} {o : Option δ} {g : δ → β}
    (h : Agrees line (fun a d => R a (g d)) x o) : Agrees line R x (o.map g) := by
  match x, o, h with
  | .ok _, some _, h => exact h
  | .error (.error _), none, h => exact h

theorem Agrees.mono {R' : α → β → Prop} {x : Except ParseFail α} {o : Option β}
    (h : Agrees line R x o) (hR : ∀ a b, R a b → R' a b) : Agrees line R' x o := by
  match x, o, h with
  | .ok a, some b, h => exact hR a b h
  | .error (.error _), none, h => exact h

end

/-! ## Byte classes are character classes -/

theorem headByte_beq {a : Char} (ha : a.toNat < 128) (c : Char) :
    (headByte c == byte a) = (c == a) :=
  (Scan.uniform_beq ha).headByte c

theorem uniform_isSpace : Uniform isSpace isBlank :=
  (Scan.uniform_beq (a := ' ') (by decide)).or (Scan.uniform_beq (a := '\t') (by decide))

theorem uniform_notSpace : Uniform (!isSpace ·) (!isBlank ·) := uniform_isSpace.not

theorem nameClass_high {b : UInt8} (h : 128 ≤ b.toNat) : nameClass b = 0 := by
  have hle {a : Char} (ha : a.toNat < 128) : ¬ b ≤ byte a := by
    rw [UInt8.le_iff_toNat_le, byte, UInt8.toNat_ofNat', Nat.mod_eq_of_lt (by omega)]
    omega
  have hne {a : Char} (ha : a.toNat < 128) : ¬ b = byte a := by
    rintro rfl
    exact hle ha UInt8.le_rfl
  simp [nameClass, isAsciiAlphabetic, isAsciiDigitByte, hle (a := 'z') (by decide),
    hle (a := 'Z') (by decide), hle (a := '9') (by decide), hne (a := '_') (by decide),
    hne (a := ':') (by decide)]

theorem isNameTail_high (colon : Bool) {c : Char} (h : 128 ≤ c.toNat) :
    isNameTail colon c = false := by
  rw [← Bool.not_eq_true]
  intro hname
  simp only [isNameTail, isNameHead, Char.isAlpha, Char.isUpper, Char.isLower, Char.isDigit,
    Bool.or_eq_true, Bool.and_eq_true, beq_iff_eq, decide_eq_true_eq, UInt32.le_iff_toNat_le,
    ge_iff_le] at hname
  have hval : c.toNat = c.val.toNat := rfl
  have hZ : 'Z'.val.toNat = 90 := rfl
  have hz : 'z'.val.toNat = 122 := rfl
  have h9 : '9'.val.toNat = 57 := rfl
  rcases hname with ((hname | rfl) | ⟨-, rfl⟩) | hname
  · omega
  · revert h
    decide
  · revert h
    decide
  · omega

theorem isNameHead_ascii {colon : Bool} {c : Char} (h : isNameHead colon c = true) :
    c.toNat < 128 := by
  by_contra hhigh
  have htail := isNameTail_high colon (Nat.le_of_not_lt hhigh)
  rw [isNameTail_of_isNameHead h] at htail
  cases htail

theorem uniform_isNameStart (colon : Bool) : Uniform (isNameStart · colon) (isNameHead colon) := by
  refine Uniform.of_ascii false ?_ ?_ ?_
  · cases colon <;> decide +kernel
  · intro b hb
    simp [isNameStart, nameClass_high hb]
  · intro c hc
    by_contra hhead
    have hascii := isNameHead_ascii (Bool.eq_true_of_not_eq_false hhead)
    omega

theorem uniform_isNameContinue (colon : Bool) :
    Uniform (isNameContinue · colon) (isNameTail colon) := by
  refine Uniform.of_ascii false ?_ ?_ (fun c hc => isNameTail_high colon hc)
  · cases colon <;> decide +kernel
  · intro b hb
    simp [isNameContinue, nameClass_high hb]

/-! ## Steps of the cursor -/

section

variable {bytes : List UInt8} {stop i : Nat} {cs : List Char}

theorem skip_at {p : UInt8 → Bool} {q : Char → Bool} (h : At bytes stop i cs)
    (hpq : Uniform p q) :
    skip bytes stop p i = .ok (i + (encode (cs.takeWhile q)).length) := by
  rw [skip, h.skipWhile hpq]
  rfl

theorem byteAt_at {c : Char} (h : At bytes stop i (c :: cs)) :
    byteAt bytes i = .ok (headByte c) := by
  rw [byteAt, h.getElem?]
  rfl

theorem lookingAt_nil (h : At bytes stop i []) (b : UInt8) : lookingAt bytes stop i b = .ok false := by
  rw [lookingAt, if_neg (by rw [h.eq_stop]; exact Nat.lt_irrefl _)]

theorem lookingAt_cons {a c : Char} (ha : a.toNat < 128) (h : At bytes stop i (c :: cs)) :
    lookingAt bytes stop i (byte a) = .ok (c == a) := by
  rw [lookingAt, if_pos h.lt_stop, byteAt_at h, ← headByte_beq ha c]
  rfl

theorem strFrom_at {xs ys : List Char} (h : At bytes stop i (xs ++ ys)) :
    strFrom bytes i (i + (encode xs).length) = String.ofList xs := by
  rw [strFrom, h.get_take]
  rfl

theorem utf8From_at {xs ys : List Char} (h : At bytes stop i (xs ++ ys)) (line : Nat) :
    utf8From bytes i (i + (encode xs).length) line = .ok (String.ofList xs) := by
  rw [utf8From, h.get_take]

theorem skipBlanks_at (h : At bytes stop i cs) :
    ∃ j, skip bytes stop isSpace i = .ok j ∧ At bytes stop j (skipBlanks cs) :=
  ⟨_, skip_at h uniform_isSpace, h.dropWhile isBlank⟩

/-- A token is what stands before the next blank. -/
theorem token_at (h : At bytes stop i cs) :
    ∃ j, skip bytes stop (!isSpace ·) i = .ok j ∧
      strFrom bytes i j = String.ofList (cs.takeWhile (!isBlank ·)) ∧
      At bytes stop j (cs.dropWhile (!isBlank ·)) := by
  refine ⟨_, skip_at h uniform_notSpace, ?_, h.dropWhile (!isBlank ·)⟩
  rw [← List.takeWhile_append_dropWhile (p := (!isBlank ·)) (l := cs)] at h
  exact strFrom_at h

/-- A name is skipped from its second character on. -/
theorem skipName_at {colon : Bool} {c : Char} (h : At bytes stop i (c :: cs))
    (hhead : isNameHead colon c = true) :
    skip bytes stop (isNameContinue · colon) (i + 1) =
        .ok (i + (encode (c :: cs.takeWhile (isNameTail colon))).length) ∧
      At bytes stop i
        ((c :: cs.takeWhile (isNameTail colon)) ++ cs.dropWhile (isNameTail colon)) := by
  have hascii := isNameHead_ascii hhead
  constructor
  · rw [skip_at (h.next hascii) (uniform_isNameContinue colon), Utf8.encode_cons,
      Scan.encodeChar_ascii hascii, List.length_append, List.length_singleton, Nat.add_assoc]
  · rwa [List.cons_append, List.takeWhile_append_dropWhile]

end

/-! ## Label values -/

/-- Neither a quote nor a backslash. -/
def isPlain (c : Char) : Bool := !(c == '"' || c == '\\')

def isPlainByte (b : UInt8) : Bool := !(b == byte '"' || b == byte '\\')

theorem uniform_isPlain : Uniform isPlainByte isPlain :=
  ((Scan.uniform_beq (a := '"') (by decide)).or (Scan.uniform_beq (a := '\\') (by decide))).not

theorem memchr2_plain {pre : List UInt8} (hpre : ∀ b ∈ pre, isPlainByte b = true) :
    memchr2 (byte '"') (byte '\\') pre = none := by
  rw [memchr2, List.findIdx?_eq_none_iff]
  intro b hb
  simpa [isPlainByte] using hpre b hb

theorem memchr2_plain_append {pre : List UInt8} (hpre : ∀ b ∈ pre, isPlainByte b = true)
    {b : UInt8} (hb : isPlainByte b = false) (rest : List UInt8) :
    memchr2 (byte '"') (byte '\\') (pre ++ b :: rest) = some pre.length := by
  have hnone := memchr2_plain hpre
  rw [memchr2] at hnone ⊢
  rw [List.findIdx?_append, hnone, List.findIdx?_cons]
  have hb' : (b == byte '"' || b == byte '\\') = true := by
    rwa [isPlainByte, Bool.not_eq_false'] at hb
  simp [hb']

theorem isPlainByte_high {b : UInt8} (h : 128 ≤ b.toNat) : isPlainByte b = true := by
  have hne {a : Char} (ha : a.toNat < 128) : ¬ b = byte a := by
    rintro rfl
    rw [byte, UInt8.toNat_ofNat', Nat.mod_eq_of_lt (by omega)] at h
    omega
  simp [isPlainByte, hne (a := '"') (by decide), hne (a := '\\') (by decide)]

/-- The bytes up to the next quote or backslash. -/
theorem isPlainByte_append {high : List UInt8} {ps : List Char}
    (hhigh : ∀ b ∈ high, 128 ≤ b.toNat) (hps : ∀ c ∈ ps, isPlain c = true) :
    ∀ b ∈ high ++ encode ps, isPlainByte b = true := by
  intro b hb
  rcases List.mem_append.mp hb with hb | hb
  · exact isPlainByte_high (hhigh b hb)
  · obtain ⟨c, hc, hbc⟩ := List.mem_flatMap.mp hb
    rw [uniform_isPlain c b hbc, hps c hc]

/-- The reader passes over plain characters. -/
theorem readRaw_plain_append {ps : List Char} (hps : ∀ c ∈ ps, isPlain c = true)
    (cs : List Char) :
    readRaw (ps ++ cs) = (readRaw cs).map fun r => (ps ++ r.1, r.2) := by
  induction ps with
  | nil => simp
  | cons c ps ih =>
      have hc := hps c List.mem_cons_self
      simp only [isPlain, Bool.not_eq_true', Bool.or_eq_false_iff, beq_eq_false_iff_ne] at hc
      rw [List.cons_append, readRaw_plain hc.1 hc.2,
        ih fun d hd => hps d (List.mem_cons_of_mem _ hd), Option.map_map]
      rfl

theorem slice_add {bytes high rest : List UInt8} {i stop : Nat}
    (h : slice bytes i stop = high ++ rest) : slice bytes (i + high.length) stop = rest := by
  rw [slice, ← List.drop_drop]
  rw [slice] at h
  rw [h, List.drop_left]

theorem getElem?_of_slice {bytes rest : List UInt8} {b : UInt8} {i stop : Nat}
    (h : slice bytes i stop = b :: rest) : bytes[i]? = some b := by
  have hget : (slice bytes i stop)[0]? = some b := by rw [h]; rfl
  rw [slice, List.getElem?_drop, Nat.add_zero, List.getElem?_take] at hget
  split at hget
  · exact hget
  · cases hget

theorem length_slice {bytes : List UInt8} {i stop : Nat} (hstop : stop ≤ bytes.length) :
    (slice bytes i stop).length = stop - i := by
  rw [slice, List.length_drop, List.length_take, Nat.min_eq_left hstop]

/-- Where the scan for the closing quote stops. After a backslash it may continue inside a
multi-byte character; `high` are the bytes of that character still ahead. -/
theorem scanQuote_agrees {bytes : List UInt8} {stop : Nat} (line : Nat)
    (hstop : stop ≤ bytes.length) (n : Nat) :
    ∀ {i : Nat} {high : List UInt8} {cs : List Char} (hasEscape : Bool), i ≤ stop →
      slice bytes i stop = high ++ encode cs → (∀ b ∈ high, 128 ≤ b.toNat) → cs.length < n →
      Agrees line (fun a r => a = (i + high.length + (encode r.1).length,
        hasEscape || r.1.contains '\\')) (scanQuote bytes stop line n i hasEscape) (readRaw cs) := by
  induction n with
  | zero =>
      intro i high cs hasEscape _ _ _ hn
      omega
  | succ n ih =>
      intro i high cs hasEscape hi hslice hhigh hn
      have hsplit : cs.takeWhile isPlain ++ cs.dropWhile isPlain = cs :=
        List.takeWhile_append_dropWhile
      have hps := all_takeWhile isPlain cs
      have htl := notStarting_dropWhile isPlain cs
      generalize cs.takeWhile isPlain = ps at hsplit hps
      generalize cs.dropWhile isPlain = tl at hsplit htl
      subst hsplit
      have hpre := isPlainByte_append hhigh hps
      rw [Utf8.encode_append, ← List.append_assoc] at hslice
      have hlen := length_slice (i := i) hstop
      -- both sides pass over the plain run, and `memchr2` stops at its end
      rw [readRaw_plain_append hps, scanQuote, hslice]
      apply Agrees.map_right
      cases tl with
      | nil =>
          rw [Utf8.encode_nil, List.append_nil, memchr2_plain hpre]
          exact Agrees.fail (by simp)
      | cons c t =>
          have hplain := notStarting_cons.mp htl
          obtain ⟨u, hu⟩ := Scan.encodeChar_eq_cons c
          have hslice' := slice_add hslice
          rw [Utf8.encode_cons, hu, List.cons_append] at hslice hslice'
          rw [Utf8.encode_cons, hu, List.cons_append,
            memchr2_plain_append hpre ((uniform_isPlain.headByte c).trans hplain)]
          dsimp only
          rw [byteAt, getElem?_of_slice hslice', orPanic, ok_bind, headByte_beq (by decide)]
          have hno : '\\' ∉ ps := fun hmem => by simpa [isPlain] using hps _ hmem
          by_cases hquote : c = '"'
          · subst hquote
            rw [readRaw_quote, if_pos (by decide)]
            simp [Agrees, Nat.add_assoc, hno]
          · have hback : c = '\\' := by
              simpa [isPlain, hquote] using hplain
            subst hback
            obtain rfl := Scan.tail_eq_nil (by decide) hu
            rw [if_neg (by decide)]
            have hpos := congrArg List.length hslice
            rw [hlen, List.length_append, List.length_cons, List.nil_append] at hpos
            cases t with
            | nil =>
                -- nothing is left to escape
                rw [Utf8.encode_nil, List.length_nil] at hpos
                rw [if_pos (by omega)]
                exact Agrees.fail (by simp)
            | cons e t =>
                obtain ⟨u, hu⟩ := Scan.encodeChar_eq_cons e
                rw [Utf8.encode_cons, hu, List.cons_append, List.length_cons] at hpos
                rw [if_neg (by omega), readRaw_escape]
                have hnext : slice bytes (i + (high ++ encode ps).length + 2) stop =
                    u ++ encode t := by
                  rw [List.nil_append, Utf8.encode_cons, hu] at hslice'
                  have hpair : slice bytes (i + (high ++ encode ps).length) stop =
                      [headByte '\\', headByte e] ++ (u ++ encode t) := hslice'
                  exact slice_add hpair
                -- the scan resumes behind the first byte of the escaped character
                have hrest := ih true (by omega) hnext (Scan.le_of_mem_tail hu)
                  (by simp only [List.length_append, List.length_cons] at hn; omega)
                apply Agrees.map_right
                refine hrest.mono ?_
                rintro _ ⟨raw, rest⟩ rfl
                have hone : (String.utf8EncodeChar '\\').length = 1 := rfl
                simp only [Utf8.encode_append, Utf8.encode_cons, List.length_append, hu,
                  List.length_cons, hone, Bool.true_or, List.contains_append]
                refine Prod.ext (by dsimp only; omega) ?_
                simp

theorem readRaw_eq_append {cs : List Char} : ∀ {raw rest : List Char},
    readRaw cs = some (raw, rest) → cs = raw ++ '"' :: rest := by
  induction cs using readRaw.induct with
  | case1 =>
      intro raw rest h
      cases h
  | case2 tail =>
      intro raw rest h
      rw [readRaw_quote, Option.some.injEq, Prod.mk.injEq] at h
      obtain ⟨rfl, rfl⟩ := h
      rfl
  | case3 =>
      intro raw rest h
      cases h
  | case4 e tail _ ih =>
      intro raw rest h
      rw [readRaw_escape, Option.map_eq_some_iff] at h
      obtain ⟨⟨raw, _⟩, h, hr⟩ := h
      obtain ⟨rfl, rfl⟩ := Prod.mk.inj hr
      rw [ih h]
      rfl
  | case5 c tail hquote hescape ih =>
      intro raw rest h
      rw [readRaw_plain hquote hescape, Option.map_eq_some_iff] at h
      obtain ⟨⟨raw, _⟩, h, hr⟩ := h
      obtain ⟨rfl, rfl⟩ := Prod.mk.inj hr
      rw [ih h]
      rfl

/-- A raw value: every backslash in it is followed by the character it escapes. -/
def Closed (raw : List Char) : Prop := ∃ rest, readRaw (raw ++ '"' :: rest) = some (raw, rest)

theorem Closed.of_readRaw {cs raw rest : List Char} (h : readRaw cs = some (raw, rest)) :
    Closed raw := ⟨rest, by rwa [← readRaw_eq_append h]⟩

theorem Closed.tail_escape {raw : List Char} (h : Closed ('\\' :: raw)) :
    ∃ e rest, raw = e :: rest ∧ Closed rest := by
  obtain ⟨tail, h⟩ := h
  cases raw with
  | nil =>
      rw [List.singleton_append, readRaw_escape, Option.map_eq_some_iff] at h
      obtain ⟨r, -, hr⟩ := h
      cases hr
  | cons e raw =>
      rw [List.cons_append, List.cons_append, readRaw_escape, Option.map_eq_some_iff] at h
      obtain ⟨⟨raw', _⟩, h, hr⟩ := h
      simp only [Prod.mk.injEq, List.cons.injEq, true_and] at hr
      obtain ⟨rfl, rfl⟩ := hr
      exact ⟨e, raw', rfl, _, h⟩

/-- Within a raw value a run without backslashes can be split off. -/
theorem Closed.drop_run {run raw : List Char} (hrun : ∀ c ∈ run, (c != '\\') = true)
    (h : Closed (run ++ raw)) : Closed raw := by
  induction run with
  | nil => exact h
  | cons c run ih =>
      apply ih (fun d hd => hrun d (List.mem_cons_of_mem _ hd))
      obtain ⟨tail, h⟩ := h
      by_cases hquote : c = '"'
      · subst hquote
        rw [List.cons_append, List.cons_append, readRaw_quote] at h
        cases h
      · have hescape : c ≠ '\\' := by simpa using hrun c List.mem_cons_self
        rw [List.cons_append, List.cons_append, readRaw_plain hquote hescape,
          Option.map_eq_some_iff] at h
        obtain ⟨⟨raw', _⟩, h, hr⟩ := h
        simp only [Prod.mk.injEq, List.cons.injEq, true_and] at hr
        obtain ⟨rfl, rfl⟩ := hr
        exact ⟨_, h⟩

theorem decode_run {run : List Char} (hrun : ∀ c ∈ run, (c != '\\') = true) (raw : List Char) :
    decode (run ++ raw) = (decode raw).map (run ++ ·) := by
  induction run with
  | nil => simp
  | cons c run ih =>
      have hescape : c ≠ '\\' := by simpa using hrun c List.mem_cons_self
      rw [List.cons_append, decode_plain hescape,
        ih fun d hd => hrun d (List.mem_cons_of_mem _ hd), Option.map_map]
      rfl

/-- One escape; a legal one is a single byte. -/
theorem escapeChar_agrees (line : Nat) (e : Char) :
    Agrees line (fun s d => s = String.ofList [d] ∧ e.toNat < 128) (escapeChar line (headByte e))
      (escapes.lookup e) := by
  rw [escapeChar, headByte_beq (by decide), headByte_beq (by decide), headByte_beq (by decide)]
  by_cases h₁ : e = '\\'
  · subst h₁
    exact Agrees.ok ⟨rfl, by decide⟩
  by_cases h₂ : e = '"'
  · subst h₂
    exact Agrees.ok ⟨rfl, by decide⟩
  by_cases h₃ : e = 'n'
  · subst h₃
    exact Agrees.ok ⟨rfl, by decide⟩
  rw [if_neg (by simpa using h₁), if_neg (by simpa using h₂), if_neg (by simpa using h₃)]
  have hnone : escapes.lookup e = none := by
    simp [escapes, List.lookup, beq_eq_false_iff_ne.mpr h₁, beq_eq_false_iff_ne.mpr h₂,
      beq_eq_false_iff_ne.mpr h₃]
  rw [hnone]
  exact Agrees.fail (by simp)

theorem length_dropRun_le {c : Char} {cs : List Char} {n : Nat} (hc : c ≠ '\\')
    (hn : (c :: cs).length ≤ n + 1) : ((c :: cs).dropWhile (· != '\\')).length ≤ n := by
  have hle := (List.dropWhile_suffix (l := cs) (· != '\\')).length_le
  rw [List.dropWhile_cons, if_pos (by simpa using hc)]
  rw [List.length_cons] at hn
  omega

theorem uniform_notBackslash : Uniform (· != byte '\\') (· != '\\') :=
  (Scan.uniform_beq (a := '\\') (by decide)).not

/-- **The unescaping loop decodes.** `j` is the index into the raw value, `contentStart + j` the same
place in the body. -/
theorem unescape_agrees {bytes raw : List UInt8} {contentStart close line : Nat} (n : Nat) :
    ∀ {j : Nat} {cs : List Char} (decoded : String), At raw raw.length j cs →
      At bytes close (contentStart + j) cs → Closed cs → cs.length ≤ n →
      Agrees line (fun s value => s = decoded ++ String.ofList value)
        (unescape bytes contentStart raw line n j decoded) (decode cs) := by
  induction n with
  | zero =>
      intro j cs decoded hraw _ _ hn
      obtain rfl := List.length_eq_zero_iff.mp (Nat.le_zero.mp hn)
      rw [unescape, if_pos (Nat.le_of_eq hraw.eq_stop.symm)]
      exact Agrees.ok (by simp)
  | succ n ih =>
      intro j cs decoded hraw hbody hclosed hn
      cases cs with
      | nil =>
          rw [unescape, if_pos (Nat.le_of_eq hraw.eq_stop.symm)]
          exact Agrees.ok (by simp)
      | cons c cs =>
          rw [unescape, if_neg (Nat.not_le.mpr hraw.lt_stop), byteAt_at hraw, ok_bind,
            headByte_beq (by decide)]
          by_cases hescape : c = '\\'
          · subst hescape
            -- in a raw value the escaped character is there, so the index below is in bounds
            obtain ⟨e, cs, rfl, hrest⟩ := hclosed.tail_escape
            have hraw₁ := hraw.next (by decide)
            rw [if_pos (by decide), byteAt_at hraw₁, ok_bind, decode_escape]
            refine (escapeChar_agrees line e).bind ?_
            rintro _ d ⟨rfl, he⟩
            apply Agrees.map_right
            rw [List.length_cons, List.length_cons] at hn
            have hbody₂ := (hbody.next (by decide)).next he
            rw [Nat.add_assoc, Nat.add_assoc] at hbody₂
            refine (ih _ (hraw₁.next he) hbody₂ hrest (by omega)).mono ?_
            rintro _ value rfl
            rw [String.append_assoc, ← String.ofList_append, List.singleton_append]
          · rw [if_neg (by simpa using hescape)]
            have hsplit : (c :: cs).takeWhile (· != '\\') ++ (c :: cs).dropWhile (· != '\\') =
                c :: cs := List.takeWhile_append_dropWhile
            have hrun := all_takeWhile (· != '\\') (c :: cs)
            have hpos := length_dropRun_le hescape hn
            rw [skip_at hraw uniform_notBackslash, ok_bind]
            generalize (c :: cs).takeWhile (· != '\\') = run at hsplit hrun
            generalize (c :: cs).dropWhile (· != '\\') = rest at hsplit hpos
            rw [← hsplit] at hraw hbody hclosed ⊢
            rw [← Nat.add_assoc, utf8From_at hbody, ok_bind, decode_run hrun]
            apply Agrees.map_right
            have hbody' := hbody.drop
            rw [Nat.add_assoc] at hbody'
            refine (ih _ hraw.drop hbody' (hclosed.drop_run hrun) hpos).mono ?_
            rintro _ value rfl
            rw [String.append_assoc, ← String.ofList_append]

/-- **Label values are read as the grammar has them.** -/
theorem parseLabelValue_agrees {bytes : List UInt8} {stop i line : Nat} {cs : List Char}
    (h : At bytes stop i ('"' :: cs)) :
    Agrees line (fun a r => a.1 = String.ofList r.1 ∧ At bytes stop a.2 r.2)
      (parseLabelValue bytes i stop line) (readQuoted cs) := by
  have hcontent := h.next (by decide)
  have hlen := hcontent.length_chars_le
  have hslice : slice bytes (i + 1) stop = [] ++ encode cs := hcontent.slice_eq
  have hscan := scanQuote_agrees line h.length_le (stop + 1 - (i + 1)) false hcontent.le hslice
    (by simp) (by have := hcontent.le; omega)
  rw [parseLabelValue, readQuoted]
  refine hscan.and_eq.bind ?_
  rintro _ ⟨raw, rest⟩ ⟨rfl, hraw⟩
  have hcs := readRaw_eq_append hraw
  have hclosed := Closed.of_readRaw hraw
  subst hcs
  have hend : At bytes stop (i + 1 + (encode raw).length + 1) rest :=
    hcontent.drop.next (by decide)
  dsimp only
  rw [List.length_nil, Nat.add_zero, Bool.false_or]
  -- the value is copied as it stands unless the scan saw a backslash
  by_cases hescape : '\\' ∈ raw
  · rw [if_neg (by simpa using hescape)]
    have hslice : slice bytes (i + 1) (i + 1 + (encode raw).length) = encode raw :=
      hcontent.take.slice_eq
    have hatRaw := Scan.at_encode raw
    rw [hslice]
    refine (unescape_agrees (encode raw).length "" hatRaw hcontent.take hclosed
      (by simpa using hatRaw.length_chars_le)).bind ?_
    rintro _ value rfl
    exact Agrees.ok ⟨String.empty_append, hend⟩
  · have hdec : decode raw = some raw := by
      have hplain : ∀ c ∈ raw, (c != '\\') = true := by
        intro c hc
        rw [bne_iff_ne]
        rintro rfl
        exact hescape hc
      simpa using decode_run hplain []
    rw [if_pos (by simpa using hescape), utf8From_at hcontent, ok_bind, hdec]
    exact Agrees.ok ⟨rfl, hend⟩

/-! ## Label sets -/

/-- The duplicate index, once built, holds exactly the names so far. -/
def SeenOk (labels : List Label) (seen : Option (List String)) : Prop :=
  ∀ names ∈ seen, ∀ name, name ∈ names ↔ name ∈ labels.map (·.name)

theorem SeenOk.none (labels : List Label) : SeenOk labels none :=
  fun names h => absurd h (Option.not_mem_none names)

theorem SeenOk.record {labels : List Label} {seen : Option (List String)} (h : SeenOk labels seen)
    (l : Label) : SeenOk (labels ++ [l]) (recordLabelName l.name (labels ++ [l]) seen) := by
  intro names hnames name
  cases seen with
  | some seen =>
      cases hnames
      rw [List.mem_insert_iff, h seen rfl, List.map_append, List.mem_append, List.map_singleton,
        List.mem_singleton, or_comm]
  | none =>
      simp only [recordLabelName, Option.mem_def, Option.ite_none_right_eq_some,
        Option.some.injEq] at hnames
      rw [← hnames.2]

/-- The linear scan and the index agree. -/
theorem checkLabelName_eq {labels : List Label} {seen : Option (List String)}
    (h : SeenOk labels seen) (name : String) (line : Nat) :
    checkLabelName name line labels seen =
      if name ∈ labels.map (·.name) then parseError line (.duplicateLabel name)
      else if maxLabelsPerSeries ≤ labels.length then parseError line .tooManyLabels
      else .ok () := by
  cases seen with
  | some seen =>
      have hmem : seen.contains name = decide (name ∈ labels.map (·.name)) := by
        rw [Bool.eq_iff_iff, decide_eq_true_iff, List.contains_iff_mem, h seen rfl]
      simp only [checkLabelName, hmem, decide_eq_true_eq]
  | none =>
      have hmem : labels.any (·.name == name) = decide (name ∈ labels.map (·.name)) := by
        rw [Bool.eq_iff_iff, decide_eq_true_iff]
        simp only [List.any_eq_true, beq_iff_eq, List.mem_map]
      simp only [checkLabelName, hmem, decide_eq_true_eq]

theorem parseLabelName_agrees {bytes : List UInt8} {stop i line : Nat} {c : Char}
    {cs : List Char} {labels : List Label} {seen : Option (List String)}
    (h : At bytes stop i (c :: cs)) (hseen : SeenOk labels seen) :
    Agrees line (fun a r => a.1 = r.1 ∧ At bytes stop a.2 r.2)
      (parseLabelName bytes stop line labels seen i) (readName labels (c :: cs)) := by
  rw [parseLabelName, byteAt_at h, ok_bind, (uniform_isNameStart false).headByte, readName]
  by_cases hhead : isNameHead false c = true
  · obtain ⟨hskip, hname⟩ := skipName_at h hhead
    rw [hhead, hskip, ok_bind, strFrom_at hname]
    dsimp only
    generalize String.ofList (c :: cs.takeWhile (isNameTail false)) = name
    rw [checkLabelName_eq hseen]
    by_cases hmetric : name = metricNameLabel
    · simp only [hmetric, Bool.not_true, Bool.false_eq_true, if_false, if_true, true_or, or_true]
      exact Agrees.fail (by simp)
    by_cases hmem : name ∈ labels.map (·.name)
    · simp only [hmetric, hmem, Bool.not_true, Bool.false_eq_true, if_false, if_true, true_or,
        or_true]
      exact Agrees.fail (by simp)
    by_cases hroom : maxLabelsPerSeries ≤ labels.length
    · simp only [hmetric, hmem, hroom, Bool.not_true, Bool.false_eq_true, if_false, if_true,
        or_true]
      exact Agrees.fail (by simp)
    · simp only [hmetric, hmem, hroom, Bool.not_true, Bool.false_eq_true, Bool.true_eq_false,
        if_false, or_self, ok_bind]
      exact Agrees.ok ⟨rfl, hname.drop⟩
  · have hfalse := Bool.eq_false_of_not_eq_true hhead
    simp only [hfalse, Bool.not_false, if_true, true_or]
    exact Agrees.fail (by simp)

theorem expectByte_agrees {bytes : List UInt8} {stop i line : Nat} {cs : List Char} {a : Char}
    (ha : a.toNat < 128) {kind : ParseErrorKind} (hkind : kind ≠ .invalidBoundary)
    (h : At bytes stop i cs) :
    Agrees line (fun j rest => At bytes stop (j - 1) (a :: rest) ∧ At bytes stop j rest)
      (expectByte bytes stop line (byte a) kind i) (expect a (skipBlanks cs)) := by
  obtain ⟨j, hskip, hat⟩ := skipBlanks_at h
  rw [expectByte, hskip, ok_bind]
  cases hcs : skipBlanks cs with
  | nil =>
      rw [lookingAt_nil (hcs ▸ hat)]
      exact Agrees.fail hkind
  | cons c rest =>
      rw [hcs] at hat
      rw [lookingAt_cons ha hat, ok_bind, expect]
      by_cases hc : c = a
      · subst hc
        rw [if_pos (beq_self_eq_true c), if_pos rfl]
        exact Agrees.ok ⟨hat, hat.next ha⟩
      · rw [if_neg (by simpa using hc), if_neg hc]
        exact Agrees.fail hkind

/-- **The label loop.** The two bounds may differ; both exceed the number of rounds. -/
theorem parseLabelsLoop_agrees {bytes : List UInt8} {stop : Nat} (line n : Nat) :
    ∀ {m i : Nat} {cs : List Char} (labels : List Label) (seen : Option (List String)),
      At bytes stop i cs → SeenOk labels seen → cs.length < n → cs.length < m →
      Agrees line (fun a r => a.2 = r.1 ∧ At bytes stop a.1 r.2)
        (parseLabelsLoop bytes stop line n i labels seen) (readPairs m labels cs) := by
  induction n with
  | zero =>
      intro m i cs labels seen _ _ hn
      omega
  | succ n ih =>
      intro m i cs labels seen h hseen hn hm
      obtain ⟨m, rfl⟩ := Nat.exists_eq_add_of_lt hm
      obtain ⟨j, hskip, hat⟩ := skipBlanks_at h
      have hshort := length_skipBlanks_le cs
      rw [parseLabelsLoop, hskip, ok_bind, readPairs]
      generalize skipBlanks cs = cs' at hat hshort
      cases cs' with
      | nil =>
          rw [if_pos (Nat.le_of_eq hat.eq_stop.symm)]
          exact Agrees.fail (by simp)
      | cons c cs' =>
          rw [if_neg (Nat.not_le.mpr hat.lt_stop), byteAt_at hat, ok_bind, headByte_beq (by decide)]
          dsimp only
          by_cases hbrace : c = '}'
          · subst hbrace
            rw [if_pos (by decide), if_pos rfl]
            exact Agrees.ok ⟨rfl, hat.next (by decide)⟩
          rw [if_neg (by simpa using hbrace), if_neg hbrace]
          -- name, `=`, opening quote and value, each from where the last one ended
          simp only [readPair, Option.bind_eq_bind, Option.bind_assoc]
          refine (parseLabelName_agrees hat hseen).and_eq.bind ?_
          rintro ⟨name, i₁⟩ ⟨_, cs₁⟩ ⟨⟨rfl, h₁⟩, hname⟩
          refine (expectByte_agrees (a := '=') (by decide) (by simp) h₁).and_eq.bind ?_
          rintro i₂ cs₂ ⟨⟨-, h₂⟩, heq⟩
          refine (expectByte_agrees (a := '"') (by decide) (by simp) h₂).and_eq.bind ?_
          rintro i₃ cs₃ ⟨⟨h₃, -⟩, hquote⟩
          refine (parseLabelValue_agrees h₃).and_eq.bind ?_
          rintro ⟨_, i₄⟩ ⟨value, cs₄⟩ ⟨⟨rfl, h₄⟩, hvalue⟩
          have hlen := length_after_pair_lt hname heq hquote hvalue
          obtain ⟨j₅, hskip₅, h₅⟩ := skipBlanks_at h₄
          dsimp only
          rw [hskip₅, ok_bind, Option.bind_some]
          dsimp only
          generalize skipBlanks cs₄ = cs₅ at h₅ hlen
          cases cs₅ with
          | nil =>
              rw [if_pos (Nat.le_of_eq h₅.eq_stop.symm)]
              exact Agrees.fail (by simp)
          | cons d rest =>
              rw [if_neg (Nat.not_le.mpr h₅.lt_stop), byteAt_at h₅, ok_bind,
                headByte_beq (by decide), headByte_beq (by decide)]
              dsimp only
              rw [List.length_cons, List.length_cons] at hlen
              rw [List.length_cons] at hshort
              by_cases hcomma : d = ','
              · subst hcomma
                rw [if_pos (by decide), if_pos rfl]
                exact ih _ _ (h₅.next (by decide)) (hseen.record ⟨name, String.ofList value⟩)
                  (by omega) (by omega)
              rw [if_neg (by simpa using hcomma), if_neg hcomma]
              by_cases hclose : d = '}'
              · subst hclose
                rw [if_pos (by decide), if_pos rfl]
                exact Agrees.ok ⟨rfl, h₅.next (by decide)⟩
              · rw [if_neg (by simpa using hclose), if_neg hclose]
                exact Agrees.fail (by simp)

end PromScrape
