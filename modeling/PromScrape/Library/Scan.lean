import Mathlib
import PromScrape.Library.Utf8

set_option autoImplicit false

/-! # Byte cursors over UTF-8 text

A hand-written scanner walks a valid UTF-8 text by byte index: it tests single bytes, skips runs of
them and takes slices between indices. `At bytes stop i cs` says what such an index means, namely
that the characters `cs` are what lies between it and `stop`. The lemmas turn each byte-level step
into the corresponding step on `cs`, provided the tests are uniform across the bytes of a
character, which every test for ASCII characters is. -/

namespace Scan

open Utf8 (encode ofUtf8Bytes? ofUtf8Bytes?_encode)

/-! ## Cursor operations -/

/-- `n` rounds of `if p(bytes[i]) { i += 1 } else { break }`; `none` is an index out of bounds. -/
def advance (p : UInt8 → Bool) (bytes : List UInt8) : Nat → Nat → Option Nat
  | 0, i => some i
  | n + 1, i =>
      match bytes[i]? with
      | none => none
      | some b => if p b then advance p bytes n (i + 1) else some i

/-- `while i < stop && p(bytes[i]) { i += 1 }`. -/
def skipWhile (p : UInt8 → Bool) (bytes : List UInt8) (stop i : Nat) : Option Nat :=
  advance p bytes (stop - i) i

/-- A byte that starts a character (`(b as i8) >= -0x40`). -/
def isFirstByte (b : UInt8) : Bool := b < 0x80 || 0xc0 ≤ b

/-- `str::is_char_boundary`. -/
def isCharBoundary (bytes : List UInt8) (i : Nat) : Bool :=
  match bytes[i]? with
  | none => i == bytes.length
  | some b => i == 0 || isFirstByte b

/-- The bytes from `i` up to `j`. -/
def slice (bytes : List UInt8) (i j : Nat) : List UInt8 := (bytes.take j).drop i

/-- `str::get(i..j)`. -/
def get (bytes : List UInt8) (i j : Nat) : Option String :=
  if i ≤ j && isCharBoundary bytes i && isCharBoundary bytes j then
    ofUtf8Bytes? (slice bytes i j)
  else none

/-! ## The bytes of one character -/

/-- The first byte of a character's encoding. -/
def headByte (c : Char) : UInt8 := (String.utf8EncodeChar c).headD 0

theorem encodeChar_ascii {c : Char} (h : c.toNat < 128) :
    String.utf8EncodeChar c = [UInt8.ofNat c.toNat] := by
  have hval : c.val.toNat ≤ 127 := Nat.le_of_lt_succ h
  rw [String.utf8EncodeChar]
  simp only [hval, if_true]
  rfl

theorem le_toNat_ofNat_mod_add {v m k : Nat} (hm : 0 < m) (hk : 128 ≤ k) (hmk : m + k ≤ 256) :
    128 ≤ (UInt8.ofNat (v % m + k)).toNat := by
  have hmod : v % m < m := Nat.mod_lt v hm
  rw [UInt8.toNat_ofNat', Nat.mod_eq_of_lt (by omega)]
  omega

/-- Every byte of a character beyond ASCII is at least `0x80`. -/
theorem le_of_mem_encodeChar {c : Char} (h : 128 ≤ c.toNat) {b : UInt8}
    (hb : b ∈ String.utf8EncodeChar c) : 128 ≤ b.toNat := by
  have hval : ¬ c.val.toNat ≤ 127 := Nat.not_le.mpr h
  simp only [String.utf8EncodeChar, hval, if_false] at hb
  split at hb
  · simp only [List.mem_cons, List.not_mem_nil, or_false] at hb
    rcases hb with rfl | rfl <;> exact le_toNat_ofNat_mod_add (by omega) (by omega) (by omega)
  split at hb
  all_goals
    simp only [List.mem_cons, List.not_mem_nil, or_false] at hb
  · rcases hb with rfl | rfl | rfl <;>
      exact le_toNat_ofNat_mod_add (by omega) (by omega) (by omega)
  · rcases hb with rfl | rfl | rfl | rfl <;>
      exact le_toNat_ofNat_mod_add (by omega) (by omega) (by omega)

theorem encodeChar_eq_cons (c : Char) :
    ∃ t, String.utf8EncodeChar c = headByte c :: t := by
  cases henc : String.utf8EncodeChar c with
  | nil => exact absurd henc String.utf8EncodeChar_ne_nil
  | cons b t => exact ⟨t, by rw [headByte, henc, List.headD_cons]⟩

/-- An ASCII character is its first byte alone. -/
theorem tail_eq_nil {c : Char} (h : c.toNat < 128) {t : List UInt8}
    (ht : String.utf8EncodeChar c = headByte c :: t) : t = [] := by
  have hone := congrArg List.length ht
  rw [encodeChar_ascii h, List.length_singleton, List.length_cons] at hone
  exact List.length_eq_zero_iff.mp (Nat.succ.inj hone).symm

/-- Past its first byte a character has no byte below `0x80`. -/
theorem le_of_mem_tail {c : Char} {t : List UInt8}
    (ht : String.utf8EncodeChar c = headByte c :: t) : ∀ b ∈ t, 128 ≤ b.toNat := by
  intro b hb
  by_cases hc : c.toNat < 128
  · rw [tail_eq_nil hc ht] at hb
    cases hb
  · exact le_of_mem_encodeChar (Nat.le_of_not_lt hc) (ht ▸ List.mem_cons_of_mem _ hb)

theorem headByte_mem (c : Char) : headByte c ∈ String.utf8EncodeChar c := by
  obtain ⟨t, ht⟩ := encodeChar_eq_cons c
  rw [ht]
  exact List.mem_cons_self

theorem headByte_ascii {c : Char} (h : c.toNat < 128) : headByte c = UInt8.ofNat c.toNat := by
  rw [headByte, encodeChar_ascii h, List.headD_cons]

theorem headByte_le {c : Char} (h : 128 ≤ c.toNat) : 128 ≤ (headByte c).toNat :=
  le_of_mem_encodeChar h (headByte_mem c)

/-- An ASCII character is recognised by the first byte. -/
theorem headByte_eq_iff {c a : Char} (ha : a.toNat < 128) :
    headByte c = UInt8.ofNat a.toNat ↔ c = a := by
  have hsmall : (UInt8.ofNat a.toNat).toNat = a.toNat := by
    rw [UInt8.toNat_ofNat', Nat.mod_eq_of_lt (by omega)]
  constructor
  · intro h
    by_cases hc : c.toNat < 128
    · rw [headByte_ascii hc] at h
      have hnat : c.toNat = a.toNat := by
        have := congrArg UInt8.toNat h
        rwa [hsmall, UInt8.toNat_ofNat', Nat.mod_eq_of_lt (by omega)] at this
      rw [← Char.ofNat_toNat c, hnat, Char.ofNat_toNat]
    · have := headByte_le (Nat.le_of_not_lt hc)
      rw [h, hsmall] at this
      omega
  · rintro rfl
    exact headByte_ascii ha

theorem isFirstByte_ofNat_of_le {n : Nat} (hlo : 192 ≤ n) (hhi : n < 256) :
    isFirstByte (UInt8.ofNat n) = true := by
  have hle : (0xc0 : UInt8) ≤ UInt8.ofNat n := by
    rw [UInt8.le_iff_toNat_le, UInt8.toNat_ofNat', Nat.mod_eq_of_lt hhi]
    exact hlo
  simp [isFirstByte, hle]

theorem isFirstByte_headByte (c : Char) : isFirstByte (headByte c) = true := by
  by_cases h : c.toNat < 128
  · have hlt : UInt8.ofNat c.toNat < 0x80 := by
      rw [UInt8.lt_iff_toNat_lt, UInt8.toNat_ofNat', Nat.mod_eq_of_lt (by omega)]
      exact h
    simp [headByte_ascii h, isFirstByte, hlt]
  · have hval : ¬ c.val.toNat ≤ 127 := fun hle => h (Nat.lt_succ_of_le hle)
    simp only [headByte, String.utf8EncodeChar, hval, if_false]
    split
    · exact isFirstByte_ofNat_of_le (by omega) (by omega)
    split <;> exact isFirstByte_ofNat_of_le (by omega) (by omega)

/-! ## Tests that are uniform across a character -/

/-- The byte test `p` gives `q c` on every byte of `c`. -/
def Uniform (p : UInt8 → Bool) (q : Char → Bool) : Prop :=
  ∀ c, ∀ b ∈ String.utf8EncodeChar c, p b = q c

/-- A test with one answer beyond ASCII is uniform. -/
theorem Uniform.of_ascii {p : UInt8 → Bool} {q : Char → Bool} (high : Bool)
    (hascii : ∀ n < 128, p (UInt8.ofNat n) = q (Char.ofNat n))
    (hp : ∀ b : UInt8, 128 ≤ b.toNat → p b = high)
    (hq : ∀ c : Char, 128 ≤ c.toNat → q c = high) : Uniform p q := by
  intro c b hb
  by_cases hc : c.toNat < 128
  · rw [encodeChar_ascii hc, List.mem_singleton] at hb
    rw [hb, hascii _ hc, Char.ofNat_toNat]
  · have hle : 128 ≤ c.toNat := Nat.le_of_not_lt hc
    rw [hp b (le_of_mem_encodeChar hle hb), hq c hle]

/-- Comparison with an ASCII character. -/
theorem uniform_beq {a : Char} (ha : a.toNat < 128) :
    Uniform (· == UInt8.ofNat a.toNat) (· == a) := by
  intro c b hb
  rw [Bool.eq_iff_iff, beq_iff_eq, beq_iff_eq]
  by_cases hc : c.toNat < 128
  · rw [encodeChar_ascii hc, List.mem_singleton] at hb
    rw [hb, ← headByte_ascii hc]
    exact headByte_eq_iff ha
  · have hle := le_of_mem_encodeChar (Nat.le_of_not_lt hc) hb
    constructor
    · rintro rfl
      rw [UInt8.toNat_ofNat', Nat.mod_eq_of_lt (by omega)] at hle
      omega
    · rintro rfl
      omega

section

variable {p : UInt8 → Bool} {q : Char → Bool}

theorem Uniform.headByte (h : Uniform p q) (c : Char) : p (headByte c) = q c :=
  h c _ (headByte_mem c)

theorem Uniform.not (h : Uniform p q) : Uniform (fun b => !p b) (fun c => !q c) :=
  fun c b hb => by simp only [h c b hb]

theorem Uniform.or {p' : UInt8 → Bool} {q' : Char → Bool} (h : Uniform p q) (h' : Uniform p' q') :
    Uniform (fun b => p b || p' b) (fun c => q c || q' c) :=
  fun c b hb => by simp only [h c b hb, h' c b hb]

/-- The test of a text is that of its characters. -/
theorem Uniform.all_encode (h : Uniform p q) (cs : List Char) :
    (encode cs).all p = cs.all q := by
  induction cs with
  | nil => rfl
  | cons c cs ih =>
      have hall : (String.utf8EncodeChar c).all p = q c := by
        cases hq : q c with
        | true => exact List.all_eq_true.mpr fun b hb => (h c b hb).trans hq
        | false =>
            rw [List.all_eq_false]
            exact ⟨Scan.headByte c, headByte_mem c, by rw [h.headByte, hq]; decide⟩
      rw [Utf8.encode_cons, List.all_append, hall, ih, List.all_cons]

theorem Uniform.takeWhile_encode (h : Uniform p q) (cs : List Char) :
    (encode cs).takeWhile p = encode (cs.takeWhile q) := by
  induction cs with
  | nil => rfl
  | cons c cs ih =>
      rw [Utf8.encode_cons, List.takeWhile_cons]
      by_cases hc : q c = true
      · have hall : ∀ b ∈ String.utf8EncodeChar c, p b = true := fun b hb => (h c b hb).trans hc
        rw [List.takeWhile_append_of_pos hall, ih, if_pos hc, Utf8.encode_cons]
      · obtain ⟨t, ht⟩ := encodeChar_eq_cons c
        have hhead : p (Scan.headByte c) = false := (h.headByte c).trans (by simpa using hc)
        rw [ht, if_neg hc, List.cons_append, List.takeWhile_cons]
        simp [hhead]

theorem Uniform.dropWhile_encode (h : Uniform p q) (cs : List Char) :
    (encode cs).dropWhile p = encode (cs.dropWhile q) := by
  have hsplit : encode (cs.takeWhile q) ++ (encode cs).dropWhile p =
      encode (cs.takeWhile q) ++ encode (cs.dropWhile q) := by
    rw [← Utf8.encode_append, List.takeWhile_append_dropWhile, ← h.takeWhile_encode,
      List.takeWhile_append_dropWhile]
  exact List.append_cancel_left hsplit

end

/-! ## Cursors -/

/-- The cursor `i` stands before the characters `cs`, which end at byte `stop` of the text. -/
def At (bytes : List UInt8) (stop i : Nat) (cs : List Char) : Prop :=
  ∃ before after : List Char, bytes = encode before ++ (encode cs ++ encode after) ∧
    i = (encode before).length ∧ stop = i + (encode cs).length

theorem at_of_append (before line after : List Char) :
    At (encode (before ++ (line ++ after))) ((encode before).length + (encode line).length)
      (encode before).length line :=
  ⟨before, after, by simp only [Utf8.encode_append], rfl, rfl⟩

theorem at_encode (cs : List Char) : At (encode cs) (encode cs).length 0 cs :=
  ⟨[], [], by simp, rfl, by simp⟩

section

variable {bytes : List UInt8} {stop i : Nat} {cs : List Char}

theorem At.stop_eq (h : At bytes stop i cs) : stop = i + (encode cs).length := by
  obtain ⟨_, _, _, _, hstop⟩ := h
  exact hstop

theorem At.le (h : At bytes stop i cs) : i ≤ stop := by
  rw [h.stop_eq]
  exact Nat.le_add_right ..

theorem At.length_le (h : At bytes stop i cs) : stop ≤ bytes.length := by
  obtain ⟨before, after, rfl, rfl, rfl⟩ := h
  simp only [List.length_append]
  omega

/-- What is left is bounded by the bytes that are left. -/
theorem At.length_chars_le (h : At bytes stop i cs) : cs.length ≤ stop - i := by
  rw [h.stop_eq, Nat.add_sub_cancel_left]
  clear h
  induction cs with
  | nil => exact Nat.zero_le _
  | cons c cs ih =>
      obtain ⟨t, ht⟩ := encodeChar_eq_cons c
      rw [Utf8.encode_cons, ht, List.length_cons, List.length_append, List.length_cons]
      omega

theorem At.eq_stop (h : At bytes stop i []) : i = stop := by
  rw [h.stop_eq]
  rfl

theorem At.lt_stop {c : Char} (h : At bytes stop i (c :: cs)) : i < stop := by
  have := h.length_chars_le
  rw [List.length_cons] at this
  omega

theorem At.lt_stop_of_ne_nil (h : At bytes stop i cs) (hne : cs ≠ []) : i < stop := by
  obtain ⟨c, cs, rfl⟩ := List.exists_cons_of_ne_nil hne
  exact h.lt_stop

theorem At.slice_eq (h : At bytes stop i cs) : slice bytes i stop = encode cs := by
  obtain ⟨before, after, rfl, rfl, rfl⟩ := h
  rw [slice, ← List.append_assoc, ← List.length_append, List.take_left, List.drop_left]

/-- The byte under the cursor. -/
theorem At.getElem? {c : Char} (h : At bytes stop i (c :: cs)) : bytes[i]? = some (headByte c) := by
  obtain ⟨before, after, rfl, rfl, rfl⟩ := h
  obtain ⟨t, ht⟩ := encodeChar_eq_cons c
  rw [List.getElem?_append_right (Nat.le_refl _), Nat.sub_self, Utf8.encode_cons, ht]
  rfl

/-- Moving the cursor past the first characters. -/
theorem At.drop {xs ys : List Char} (h : At bytes stop i (xs ++ ys)) :
    At bytes stop (i + (encode xs).length) ys := by
  obtain ⟨before, after, rfl, rfl, rfl⟩ := h
  refine ⟨before ++ xs, after, ?_, ?_, ?_⟩
  · simp only [Utf8.encode_append, List.append_assoc]
  · rw [Utf8.encode_append, List.length_append]
  · rw [Utf8.encode_append, List.length_append, Nat.add_assoc]

/-- Cutting the text off earlier. -/
theorem At.take {xs ys : List Char} (h : At bytes stop i (xs ++ ys)) :
    At bytes (i + (encode xs).length) i xs := by
  obtain ⟨before, after, rfl, rfl, -⟩ := h
  exact ⟨before, ys ++ after, by simp only [Utf8.encode_append, List.append_assoc], rfl, rfl⟩

/-- An ASCII character is one byte. -/
theorem At.next {a : Char} (ha : a.toNat < 128) (h : At bytes stop i (a :: cs)) :
    At bytes stop (i + 1) cs := by
  have hcons : At bytes stop i ([a] ++ cs) := h
  have hdrop := hcons.drop
  rwa [Utf8.encode_cons, encodeChar_ascii ha] at hdrop

theorem At.isCharBoundary (h : At bytes stop i cs) : isCharBoundary bytes i = true := by
  obtain ⟨before, after, rfl, rfl, rfl⟩ := h
  rw [Scan.isCharBoundary, List.getElem?_append_right (Nat.le_refl _), Nat.sub_self,
    ← Utf8.encode_append]
  cases cs ++ after with
  | nil => simp
  | cons c t =>
      obtain ⟨u, hu⟩ := encodeChar_eq_cons c
      rw [Utf8.encode_cons, hu, List.cons_append, List.getElem?_cons_zero]
      simp [isFirstByte_headByte]

theorem At.boundary_stop (h : At bytes stop i cs) : Scan.isCharBoundary bytes stop = true := by
  have hend : At bytes stop (i + (encode cs).length) [] := by
    apply At.drop
    rwa [List.append_nil]
  rw [h.stop_eq] at hend ⊢
  exact hend.isCharBoundary

/-- A slice between two cursors is the text between them. -/
theorem At.get_eq (h : At bytes stop i cs) : get bytes i stop = some (String.ofList cs) := by
  rw [Scan.get, h.isCharBoundary, h.boundary_stop, h.slice_eq, ofUtf8Bytes?_encode]
  simp [h.le]

theorem At.get_take {xs ys : List Char} (h : At bytes stop i (xs ++ ys)) :
    get bytes i (i + (encode xs).length) = some (String.ofList xs) :=
  h.take.get_eq

end

/-! ## Skipping -/

section

variable {p : UInt8 → Bool} {bytes : List UInt8}

theorem advance_eq (n i : Nat) (h : i + n ≤ bytes.length) :
    advance p bytes n i = some (i + ((slice bytes i (i + n)).takeWhile p).length) := by
  induction n generalizing i with
  | zero => simp [advance, slice]
  | succ n ih =>
      have hi : i < bytes.length := by omega
      have hslice : slice bytes i (i + (n + 1)) = bytes[i] :: slice bytes (i + 1) (i + 1 + n) := by
        rw [slice, slice, List.drop_take, List.drop_take, List.drop_eq_getElem_cons hi]
        rw [show i + (n + 1) - i = n + 1 by omega, show i + 1 + n - (i + 1) = n by omega]
        rfl
      rw [advance, List.getElem?_eq_getElem hi, hslice, List.takeWhile_cons]
      dsimp only
      split
      · rw [ih (i + 1) (by omega), List.length_cons]
        congr 1
        omega
      · rfl

theorem skipWhile_eq {stop i : Nat} (hi : i ≤ stop) (hstop : stop ≤ bytes.length) :
    skipWhile p bytes stop i = some (i + ((slice bytes i stop).takeWhile p).length) := by
  rw [skipWhile, advance_eq _ _ (by omega), show i + (stop - i) = stop by omega]

variable {q : Char → Bool} {stop i : Nat} {cs : List Char}

/-- **A byte loop is `dropWhile` on the text.** -/
theorem At.skipWhile (h : At bytes stop i cs) (hpq : Uniform p q) :
    skipWhile p bytes stop i = some (i + (encode (cs.takeWhile q)).length) := by
  rw [skipWhile_eq h.le h.length_le, h.slice_eq, hpq.takeWhile_encode]

theorem At.dropWhile (q : Char → Bool) (h : At bytes stop i cs) :
    At bytes stop (i + (encode (cs.takeWhile q)).length) (cs.dropWhile q) := by
  apply At.drop
  rwa [List.takeWhile_append_dropWhile]

end

end Scan
