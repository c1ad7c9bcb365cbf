import PromScrape.Library.Numerals

set_option autoImplicit false

/-! # HTTP/1.1 responses

The form of a response with a `content-length`, and what a client reads of it: lines up to an empty
one, and then as many bytes as announced, or none if it asked with `HEAD`. Whatever the body is, a
client finds its end. -/

namespace Http

open Numerals (digits? digits?_toDigits)

structure Response where
  status : List UInt8
  headers : List (List UInt8 × List UInt8)
  body : List UInt8
deriving DecidableEq, Repr

/-- The bytes of an ASCII text. -/
def ascii (cs : List Char) : List UInt8 := cs.map fun c => UInt8.ofNat c.toNat

def version : List UInt8 := ascii ['H', 'T', 'T', 'P', '/', '1', '.', '1', ' ']

def contentLengthName : List UInt8 :=
  ascii ['c', 'o', 'n', 't', 'e', 'n', 't', '-', 'l', 'e', 'n', 'g', 't', 'h']

/-! ## Writing -/

def writeLine (line : List UInt8) : List UInt8 := line ++ [13, 10]

def writeField (field : List UInt8 × List UInt8) : List UInt8 := field.1 ++ 58 :: 32 :: field.2

def write (r : Response) : List UInt8 :=
  writeLine (version ++ r.status) ++ r.headers.flatMap (fun field => writeLine (writeField field)) ++
    writeLine [] ++ r.body

/-! ## Reading -/

/-- The bytes up to the next line end, and those behind it. -/
def takeLine : List UInt8 → Option (List UInt8 × List UInt8)
  | 13 :: 10 :: rest => some ([], rest)
  | b :: rest => (takeLine rest).map fun found => (b :: found.1, found.2)
  | [] => none

/-- The lines up to an empty one, of `n` at most, and the bytes behind it. -/
def takeHead : Nat → List UInt8 → Option (List (List UInt8) × List UInt8)
  | 0, _ => none
  | n + 1, bytes =>
      match takeLine bytes with
      | some ([], rest) => some ([], rest)
      | some (line, rest) => (takeHead n rest).map fun found => (line :: found.1, found.2)
      | none => none

/-- The name and the value of a header line. -/
def readField (line : List UInt8) : List UInt8 × List UInt8 :=
  (line.takeWhile (· != 58), ((line.dropWhile (· != 58)).drop 1).dropWhile (· == 32))

def contentLength (headers : List (List UInt8 × List UInt8)) : Option Nat :=
  (headers.find? fun field => field.1 == contentLengthName).bind fun field =>
    digits? (field.2.map fun b => Char.ofNat b.toNat)

/-- The response at the start of what was received, and what follows it. The response to a `HEAD`
request has no body, whatever it announces. -/
def read (head : Bool) (bytes : List UInt8) : Option (Response × List UInt8) := do
  let (lines, rest) ← takeHead bytes.length bytes
  match lines with
  | [] => none
  | statusLine :: fields =>
      let headers := fields.map readField
      let n ← if head then some 0 else contentLength headers
      if statusLine.take version.length = version ∧ n ≤ rest.length then
        some (⟨statusLine.drop version.length, headers, rest.take n⟩, rest.drop n)
      else none

/-! ## Round trip -/

/-- A line without a carriage return is read up to its end. -/
theorem takeLine_writeLine {line : List UInt8} (h : 13 ∉ line) (rest : List UInt8) :
    takeLine (writeLine line ++ rest) = some (line, rest) := by
  induction line with
  | nil => rfl
  | cons b line ih =>
      have hb : b ≠ 13 := fun hb => h (hb ▸ List.mem_cons_self)
      have hline : 13 ∉ line := fun hmem => h (List.mem_cons_of_mem b hmem)
      have hnext : writeLine (b :: line) ++ rest = b :: (writeLine line ++ rest) := rfl
      rw [hnext, takeLine, ih hline]
      · rfl
      · intro more hmore
        exact absurd hmore hb

theorem takeHead_lines {lines : List (List UInt8)} (h : ∀ line ∈ lines, line ≠ [] ∧ 13 ∉ line)
    (rest : List UInt8) {n : Nat} (hn : lines.length < n) :
    takeHead n (lines.flatMap writeLine ++ (writeLine [] ++ rest)) = some (lines, rest) := by
  induction lines generalizing n with
  | nil =>
      obtain ⟨n, rfl⟩ := Nat.exists_eq_add_of_lt hn
      rfl
  | cons line lines ih =>
      obtain ⟨n, rfl⟩ : ∃ m, n = m + 1 := ⟨n - 1, by simp only [List.length_cons] at hn; omega⟩
      obtain ⟨hne, hline⟩ := h line List.mem_cons_self
      have hlines := ih (fun l hl => h l (List.mem_cons_of_mem _ hl)) (Nat.lt_of_succ_lt_succ hn)
      rw [List.flatMap_cons, List.append_assoc, takeHead, takeLine_writeLine hline]
      cases line with
      | nil => exact absurd rfl hne
      | cons b line => simp only [hlines, Option.map_some]

/-- Every line takes at least two bytes. -/
theorem length_lt_writeLines (lines : List (List UInt8)) (rest : List UInt8) :
    lines.length < (lines.flatMap writeLine ++ (writeLine [] ++ rest)).length := by
  induction lines with
  | nil => simp [writeLine]
  | cons line lines ih =>
      simp only [List.flatMap_cons, List.append_assoc, List.length_append, List.length_cons] at ih ⊢
      simp only [writeLine, List.length_append, List.length_cons, List.length_nil] at ih ⊢
      omega

theorem readField_writeField {field : List UInt8 × List UInt8} (hname : 58 ∉ field.1)
    (hvalue : field.2.head? ≠ some 32) : readField (writeField field) = field := by
  obtain ⟨name, value⟩ := field
  have hall : ∀ b ∈ name, (b != 58) = true := by
    intro b hb
    simp only [bne_iff_ne, ne_eq]
    exact fun h => hname (h ▸ hb)
  have hvalue' : value.dropWhile (· == 32) = value := by
    cases value with
    | nil => rfl
    | cons b value =>
        rw [List.dropWhile_cons_of_neg]
        simpa using hvalue
  simp only [readField, writeField]
  rw [List.takeWhile_append_of_pos hall, List.dropWhile_append_of_pos hall]
  simp [hvalue']

/-- What a response has to be for a client to read it as it was meant. -/
structure Response.WellFormed (r : Response) : Prop where
  status : 13 ∉ r.status
  fields : ∀ field ∈ r.headers, 13 ∉ field.1 ∧ 58 ∉ field.1 ∧ 13 ∉ field.2 ∧
    field.2.head? ≠ some 32
  announced : contentLength r.headers = some r.body.length

theorem digit_lt {n : Nat} {c : Char} (h : c ∈ Nat.toDigits 10 n) : 48 ≤ c.toNat ∧ c.toNat ≤ 57 := by
  have hdigit := Nat.isDigit_of_mem_toDigits (by decide) (by decide) h
  simp only [Char.isDigit, Bool.and_eq_true, decide_eq_true_eq] at hdigit
  exact ⟨UInt32.le_iff_toNat_le.mp hdigit.1, UInt32.le_iff_toNat_le.mp hdigit.2⟩

/-- The bytes of decimal digits. -/
theorem digit_bounds {n : Nat} {c : Char} (h : c ∈ Nat.toDigits 10 n) :
    48 ≤ UInt8.ofNat c.toNat ∧ UInt8.ofNat c.toNat ≤ 57 := by
  obtain ⟨hlo, hhi⟩ := digit_lt h
  have hsize : UInt8.size = 256 := rfl
  rw [UInt8.le_iff_toNat_le, UInt8.le_iff_toNat_le, UInt8.toNat_ofNat_of_lt' (by omega)]
  exact ⟨hlo, hhi⟩

/-- The announced length, for a length that is written in decimal. -/
theorem contentLength_toDigits {headers : List (List UInt8 × List UInt8)} {n : Nat}
    (h : headers.find? (fun field => field.1 == contentLengthName) =
      some (contentLengthName, ascii (Nat.toDigits 10 n))) : contentLength headers = some n := by
  have hdigits : (ascii (Nat.toDigits 10 n)).map (fun b => Char.ofNat b.toNat) =
      Nat.toDigits 10 n := by
    rw [ascii, List.map_map]
    conv_rhs => rw [← List.map_id (Nat.toDigits 10 n)]
    refine List.map_congr_left fun c hc => ?_
    obtain ⟨-, hle⟩ := digit_lt hc
    have hsize : UInt8.size = 256 := rfl
    rw [Function.comp_apply, UInt8.toNat_ofNat_of_lt' (by omega), Char.ofNat_toNat]
    rfl
  rw [contentLength, h, Option.bind_some, hdigits, digits?_toDigits]

/-- **A client reads exactly the response that was written**, and what follows is left alone; to a
    client that asked with `HEAD`, the body is part of what follows. -/
theorem read_write {r : Response} (h : r.WellFormed) (head : Bool) (rest : List UInt8) :
    read head (write r ++ rest) =
      some ({ r with body := if head then [] else r.body }, if head then r.body ++ rest else rest) := by
  have hlines : write r ++ rest =
      ((version ++ r.status) :: r.headers.map writeField).flatMap writeLine ++
        (writeLine [] ++ (r.body ++ rest)) := by
    simp [write, List.flatMap_map]
  have hclean : ∀ line ∈ (version ++ r.status) :: r.headers.map writeField,
      line ≠ [] ∧ 13 ∉ line := by
    intro line hline
    rcases List.mem_cons.mp hline with rfl | hfield
    · refine ⟨List.append_ne_nil_of_left_ne_nil (by decide) _, ?_⟩
      rw [List.mem_append, not_or]
      exact ⟨by decide, h.status⟩
    · obtain ⟨field, hmem, rfl⟩ := List.mem_map.mp hfield
      obtain ⟨hname, -, hvalue, -⟩ := h.fields field hmem
      refine ⟨by simp [writeField], ?_⟩
      simp only [writeField, List.mem_append, List.mem_cons, not_or]
      exact ⟨hname, by decide, by decide, hvalue⟩
  have hcount := length_lt_writeLines ((version ++ r.status) :: r.headers.map writeField)
    (r.body ++ rest)
  have hfields : (r.headers.map writeField).map readField = r.headers := by
    rw [List.map_map]
    conv_rhs => rw [← List.map_id r.headers]
    refine List.map_congr_left fun field hfield => ?_
    obtain ⟨-, hname, -, hvalue⟩ := h.fields field hfield
    exact readField_writeField hname hvalue
  rw [hlines, read, takeHead_lines hclean _ hcount]
  cases head with
  | false => simp [hfields, h.announced]
  | true => simp [hfields]

end Http
