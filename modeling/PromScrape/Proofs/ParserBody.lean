import PromScrape.Proofs.Parser

set_option autoImplicit false

/-! # Bodies of the text format

The lines of a body, and the line splitter of `parse`. -/

namespace PromScrape

open Utf8 (encode utf8Bytes utf8Bytes_eq_encode)
open Scan (At Uniform slice)

/-! ## Lines of a text -/

/-- The lines of a text; a newline ends a line, and nothing follows the last one. -/
def bodyLines : List Char → List (List Char)
  | [] => []
  | c :: rest =>
      if c = '\n' then [] :: bodyLines rest
      else
        match bodyLines rest with
        | [] => [[c]]
        | l :: ls => (c :: l) :: ls

/-- A line without its carriage return. -/
def dropCr (line : List Char) : List Char :=
  if line.getLast? = some '\r' then line.dropLast else line

/-- The samples of a list of lines, or the number of the first line that has none. -/
def readBody : Nat → List (List Char) → Except Nat (List SampleText)
  | _, [] => .ok []
  | n, line :: rest =>
      match readLine (dropCr line) with
      | none => .error (n + 1)
      | some s => (readBody (n + 1) rest).map (s.toList ++ ·)

def isNotNewline (c : Char) : Bool := !(c == '\n')

/-- The first line and the rest. -/
theorem bodyLines_eq {cs : List Char} (hne : cs ≠ []) :
    bodyLines cs = cs.takeWhile isNotNewline :: bodyLines ((cs.dropWhile isNotNewline).drop 1) := by
  induction cs with
  | nil => exact absurd rfl hne
  | cons c cs ih =>
      rw [bodyLines]
      by_cases hc : c = '\n'
      · subst hc
        rfl
      · have hpass : isNotNewline c = true := by simpa [isNotNewline] using hc
        rw [if_neg hc, List.takeWhile_cons, List.dropWhile_cons, if_pos hpass, if_pos hpass]
        cases cs with
        | nil => rfl
        | cons d cs => rw [ih (List.cons_ne_nil d cs)]

theorem length_rest_lt {cs : List Char} (hne : cs ≠ []) :
    ((cs.dropWhile isNotNewline).drop 1).length < cs.length := by
  have hle := (List.dropWhile_suffix (l := cs) isNotNewline).length_le
  have hpos := List.length_pos_iff.mpr hne
  rw [List.length_drop]
  omega

/-! ## The line splitter -/

theorem findIdx?_eq_takeWhile {α : Type} (p : α → Bool) (l : List α) :
    l.findIdx? p =
      if l.dropWhile (!p ·) = [] then none else some (l.takeWhile (!p ·)).length := by
  induction l with
  | nil => rfl
  | cons a l ih =>
      rw [List.findIdx?_cons, List.dropWhile_cons, List.takeWhile_cons, ih]
      cases hp : p a with
      | true => simp
      | false =>
          simp only [Bool.not_false, Bool.false_eq_true, if_false, if_true]
          split <;> simp

theorem uniform_isNotNewline : Uniform (fun b => !b == byte '\n') isNotNewline :=
  (Scan.uniform_beq (a := '\n') (by decide)).not

theorem dropWhile_eq_nil_of_takeWhile {α : Type} {p : α → Bool} {l : List α}
    (h : l.dropWhile p = []) : l.takeWhile p = l := by
  have hsplit := List.takeWhile_append_dropWhile (p := p) (l := l)
  rwa [h, List.append_nil] at hsplit

section

variable {bytes : List UInt8} {pos : Nat} {cs : List Char}

theorem lineEndFrom_at (h : At bytes bytes.length pos cs) :
    lineEndFrom bytes pos = pos + (encode (cs.takeWhile isNotNewline)).length := by
  have hdrop : bytes.drop pos = encode cs := by
    have := h.slice_eq
    rwa [slice, List.take_length] at this
  rw [lineEndFrom, memchr, hdrop, findIdx?_eq_takeWhile, uniform_isNotNewline.takeWhile_encode]
  split
  · next offset hoff =>
      split at hoff
      · cases hoff
      · cases hoff
        rfl
  · next hoff =>
      split at hoff
      · next hnil =>
          rw [← uniform_isNotNewline.takeWhile_encode, dropWhile_eq_nil_of_takeWhile hnil]
          exact h.stop_eq
      · cases hoff

/-- The byte before the end of a text belongs to its last character. -/
theorem byteAt_last {stop i : Nat} {init : List Char} {c : Char}
    (h : At bytes stop i (init ++ [c])) :
    ∃ b ∈ String.utf8EncodeChar c, byteAt bytes (stop - 1) = .ok b := by
  have hlast : (slice bytes i stop).getLast? = (String.utf8EncodeChar c).getLast? := by
    rw [h.slice_eq, Utf8.encode_append, Utf8.encode_cons, Utf8.encode_nil, List.append_nil,
      List.getLast?_append_of_ne_nil _ String.utf8EncodeChar_ne_nil]
  obtain ⟨b, hb⟩ : ∃ b, (String.utf8EncodeChar c).getLast? = some b :=
    ⟨_, List.getLast?_eq_some_getLast String.utf8EncodeChar_ne_nil⟩
  refine ⟨b, List.mem_of_getLast? hb, ?_⟩
  have hpos : i < stop := by
    have := h.length_chars_le
    rw [List.length_append, List.length_singleton] at this
    omega
  rw [hb, List.getLast?_eq_getElem?, length_slice h.length_le, slice, List.getElem?_drop,
    List.getElem?_take, if_pos (by omega), show i + (stop - i - 1) = stop - 1 by omega] at hlast
  rw [byteAt, hlast]
  rfl

theorem stripCr_at {stop : Nat} {line : List Char} (h : At bytes stop pos line) :
    ∃ j, stripCr bytes pos stop = .ok j ∧ At bytes j pos (dropCr line) := by
  rcases line.eq_nil_or_concat with rfl | ⟨init, c, rfl⟩
  · rw [stripCr, if_neg (Nat.not_lt.mpr (Nat.le_of_eq h.eq_stop.symm))]
    exact ⟨stop, rfl, h⟩
  rw [List.concat_eq_append] at h ⊢
  have hpos : pos < stop := by
    have := h.length_chars_le
    rw [List.length_append, List.length_singleton] at this
    omega
  obtain ⟨b, hb, hbyte⟩ := byteAt_last h
  have hcr : (b == byte '\r') = (c == '\r') := Scan.uniform_beq (by decide) c b hb
  rw [stripCr, if_pos hpos, hbyte, dropCr, List.getLast?_concat]
  by_cases hc : c = '\r'
  · subst hc
    have hstop : stop - 1 = pos + (encode init).length := by
      have := h.stop_eq
      rw [Utf8.encode_append, List.length_append] at this
      have hone : (encode ['\r']).length = 1 := rfl
      omega
    refine ⟨stop - 1, ?_, ?_⟩
    · simp only [Except.map, hcr, beq_self_eq_true, if_true]
    · rw [if_pos rfl, List.dropLast_concat, hstop]
      exact h.take
  · refine ⟨stop, ?_, ?_⟩
    · simp only [Except.map, hcr, beq_iff_eq, hc, if_false]
    · rwa [if_neg (by simpa using hc)]

theorem line_at (h : At bytes bytes.length pos cs) :
    At bytes (lineEndFrom bytes pos) pos (cs.takeWhile isNotNewline) := by
  rw [lineEndFrom_at h]
  rw [← List.takeWhile_append_dropWhile (p := isNotNewline) (l := cs)] at h
  exact h.take

/-- The next line starts after the newline. -/
theorem next_at (h : At bytes bytes.length pos cs) :
    At bytes bytes.length
      (if lineEndFrom bytes pos < bytes.length then lineEndFrom bytes pos + 1
        else lineEndFrom bytes pos) ((cs.dropWhile isNotNewline).drop 1) := by
  have hend := h.dropWhile isNotNewline
  rw [← lineEndFrom_at h] at hend
  have hstop := notStarting_dropWhile isNotNewline cs
  generalize cs.dropWhile isNotNewline = rest at hend hstop
  cases rest with
  | nil =>
      rw [if_neg (Nat.not_lt.mpr (Nat.le_of_eq hend.eq_stop.symm))]
      exact hend
  | cons c rest =>
      have hnewline : c = '\n' := by simpa [isNotNewline] using notStarting_cons.mp hstop
      subst hnewline
      rw [if_pos hend.lt_stop]
      exact hend.next (by decide)

end

end PromScrape
