import Mathlib
import PromScrape.Library.Float64

set_option autoImplicit false

/-! # Reading numerals

The number grammars of Rust's standard library: `i64::from_str` and `f64::from_str`. Decimal
floating-point literals are rounded by the logical model of binary64 that comes with Lean. -/

namespace Numerals

/-! ## Signs and digits -/

/-- Split off one optional sign; `true` is a minus. -/
def takeSign : List Char → Bool × List Char
  | '-' :: cs => (true, cs)
  | '+' :: cs => (false, cs)
  | cs => (false, cs)

/-- A non-empty string of decimal digits. -/
def digits? (cs : List Char) : Option Nat :=
  if cs ≠ [] ∧ cs.all Char.isDigit then some (Nat.ofDigitChars 10 cs 0) else none

/-- The number with the given sign. -/
def withSign (neg : Bool) (n : Nat) : Int := if neg then -(n : Int) else n

/-! ## Integers -/

/-- `i64::from_str`: an optional sign and digits, in range. -/
def i64FromStr (s : String) : Option Int64 := do
  let (neg, cs) := takeSign s.toList
  let n := withSign neg (← digits? cs)
  if -2 ^ 63 ≤ n ∧ n < 2 ^ 63 then some (Int64.ofInt n) else none

/-! ## Floating-point literals -/

/-- `Digit+ | Digit+ '.' Digit* | Digit* '.' Digit+`: all digits as one number, the number of
fraction digits, and what follows. -/
def decimal (cs : List Char) : Option (Nat × Nat × List Char) :=
  let whole := cs.takeWhile Char.isDigit
  match cs.dropWhile Char.isDigit with
  | '.' :: rest =>
      let fraction := rest.takeWhile Char.isDigit
      (digits? (whole ++ fraction)).map (·, fraction.length, rest.dropWhile Char.isDigit)
  | rest => (digits? whole).map (·, 0, rest)

/-- `([eE] Sign? Digit+)?`, up to the end. -/
def exponent : List Char → Option Int
  | [] => some 0
  | c :: cs =>
      if c = 'e' ∨ c = 'E' then
        (digits? (takeSign cs).2).map (withSign (takeSign cs).1)
      else none

/-- An unsigned decimal number, rounded to the nearest double, ties to even. -/
def number (cs : List Char) : Option F64 := do
  let (mantissa, scale, rest) ← decimal cs
  let e ← exponent rest
  some ⟨(Float.Model.ofScientific mantissa (e - scale)).toBits⟩

/-- Equality up to ASCII case with a word in lower case. -/
def isWord (word : String) (cs : List Char) : Bool := cs.map Char.toLower == word.toList

/-- The words `inf`, `infinity` and `nan` in any case. -/
def special (cs : List Char) : Option F64 :=
  if isWord "inf" cs || isWord "infinity" cs then some F64.infinity
  else if isWord "nan" cs then some F64.nan
  else none

/-- `f64::from_str`. -/
def f64FromStr (s : String) : Option F64 :=
  let signed := takeSign s.toList
  (number signed.2 <|> special signed.2).map fun x => if signed.1 then x.neg else x

theorem digit_lt {c : Char} (h : c.isDigit = true) : c.toNat - '0'.toNat < 10 := by
  simp only [Char.isDigit, Bool.and_eq_true, decide_eq_true_eq] at h
  have hle : c.toNat ≤ '9'.toNat := UInt32.le_iff_toNat_le.mp h.2
  have hzero : '0'.toNat = 48 := rfl
  have hnine : '9'.toNat = 57 := rfl
  omega

/-- A number is below the power of ten with as many zeros as it has digits. -/
theorem ofDigitChars_lt {digits : List Char} (h : ∀ c ∈ digits, c.isDigit = true) :
    Nat.ofDigitChars 10 digits 0 < 10 ^ digits.length := by
  induction digits using List.reverseRecOn with
  | nil => simp
  | append_singleton digits d ih =>
      have hd := digit_lt (h d (by simp))
      have hdigits := ih (fun c hc => h c (List.mem_append_left _ hc))
      rw [Nat.ofDigitChars_append, Nat.ofDigitChars_cons, Nat.ofDigitChars_nil, List.length_append,
        List.length_singleton, Nat.pow_succ]
      omega

/-- A longer number is a shorter one shifted, and what its further digits add. -/
theorem ofDigitChars_append_zero (as bs : List Char) :
    Nat.ofDigitChars 10 (as ++ bs) 0 =
      Nat.ofDigitChars 10 as 0 * 10 ^ bs.length + Nat.ofDigitChars 10 bs 0 := by
  rw [Nat.ofDigitChars_append, Nat.ofDigitChars_eq_ofDigitChars_zero, Nat.mul_comm]

/-! ## Signs of a literal -/

def isSign (c : Char) : Bool := c == '+' || c == '-'

/-- A float literal without a sign. -/
def unsigned (cs : List Char) : Option F64 := number cs <|> special cs

theorem f64FromStr_eq (s : String) :
    f64FromStr s =
      (unsigned (takeSign s.toList).2).map fun x => if (takeSign s.toList).1 then x.neg else x := rfl

theorem takeSign_sign {c : Char} (hc : isSign c = true) (cs : List Char) :
    takeSign (c :: cs) = (c == '-', cs) := by
  simp only [isSign, Bool.or_eq_true, beq_iff_eq] at hc
  rcases hc with rfl | rfl <;> rfl

theorem takeSign_of_not_sign {cs : List Char} (hcs : ∀ c ∈ cs.head?, isSign c = false) :
    takeSign cs = (false, cs) := by
  unfold takeSign
  split
  · next cs => exact absurd (hcs '-' rfl) (by decide)
  · next cs => exact absurd (hcs '+' rfl) (by decide)
  · rfl

/-- The sign comes first and only once. -/
theorem unsigned_sign {c : Char} (hc : isSign c = true) (cs : List Char) :
    unsigned (c :: cs) = none := by
  simp only [isSign, Bool.or_eq_true, beq_iff_eq] at hc
  rcases hc with rfl | rfl
  all_goals
    simp [unsigned, number, decimal, digits?, special, isWord]

/-! ## The characters of a literal -/

/-- The characters that numerals are made of. -/
def isNumeralChar (c : Char) : Bool :=
  c.isDigit || c.isAlpha || c == '+' || c == '-' || c == '.'

theorem isNumeralChar_of_isDigit {c : Char} (h : c.isDigit = true) : isNumeralChar c = true := by
  simp [isNumeralChar, h]

theorem isNumeralChar_of_isAlpha {c : Char} (h : c.isAlpha = true) : isNumeralChar c = true := by
  simp [isNumeralChar, h]

theorem digits?_eq_some {cs : List Char} {n : Nat} (h : digits? cs = some n) :
    cs ≠ [] ∧ (∀ c ∈ cs, c.isDigit = true) ∧ n = Nat.ofDigitChars 10 cs 0 := by
  simp only [digits?] at h
  split at h
  · next hcs => exact ⟨hcs.1, List.all_eq_true.mp hcs.2, (Option.some.inj h).symm⟩
  · cases h

theorem mem_takeSign {cs : List Char} {c : Char} (h : c ∈ cs) :
    isNumeralChar c = true ∨ c ∈ (takeSign cs).2 := by
  unfold takeSign
  split
  · rcases List.mem_cons.mp h with rfl | h
    · exact .inl rfl
    · exact .inr h
  · rcases List.mem_cons.mp h with rfl | h
    · exact .inl rfl
    · exact .inr h
  · exact .inr h

theorem mem_decimal {cs : List Char} {m k : Nat} {rest : List Char}
    (h : decimal cs = some (m, k, rest)) {c : Char} (hc : c ∈ cs) :
    isNumeralChar c = true ∨ c ∈ rest := by
  rw [← List.takeWhile_append_dropWhile (p := Char.isDigit) (l := cs), List.mem_append] at hc
  rcases hc with hc | hc
  · exact .inl (isNumeralChar_of_isDigit (List.mem_takeWhile_imp hc))
  simp only [decimal] at h
  split at h
  · next tail htail =>
      rw [htail, List.mem_cons] at hc
      obtain ⟨n, -, hn⟩ := Option.map_eq_some_iff.mp h
      simp only [Prod.mk.injEq] at hn
      obtain ⟨-, -, rfl⟩ := hn
      rcases hc with rfl | hc
      · exact .inl rfl
      rw [← List.takeWhile_append_dropWhile (p := Char.isDigit) (l := tail), List.mem_append] at hc
      rcases hc with hc | hc
      · exact .inl (isNumeralChar_of_isDigit (List.mem_takeWhile_imp hc))
      · exact .inr hc
  · obtain ⟨n, -, hn⟩ := Option.map_eq_some_iff.mp h
    simp only [Prod.mk.injEq] at hn
    obtain ⟨-, -, rfl⟩ := hn
    exact .inr hc

theorem mem_exponent {cs : List Char} {e : Int} (h : exponent cs = some e) {c : Char}
    (hc : c ∈ cs) : isNumeralChar c = true := by
  cases cs with
  | nil => cases hc
  | cons d ds =>
      simp only [exponent] at h
      split at h
      · next hd =>
          obtain ⟨n, hn, -⟩ := Option.map_eq_some_iff.mp h
          rcases List.mem_cons.mp hc with rfl | hc
          · rcases hd with rfl | rfl <;> rfl
          · rcases mem_takeSign hc with hc | hc
            · exact hc
            · exact isNumeralChar_of_isDigit ((digits?_eq_some hn).2.1 c hc)
      · cases h

theorem mem_number {cs : List Char} {x : F64} (h : number cs = some x) {c : Char} (hc : c ∈ cs) :
    isNumeralChar c = true := by
  simp only [number, Option.bind_eq_bind, Option.bind_eq_some_iff, Prod.exists] at h
  obtain ⟨m, k, rest, hdec, e, hexp, -⟩ := h
  rcases mem_decimal hdec hc with hc | hc
  · exact hc
  · exact mem_exponent hexp hc

theorem isAlpha_of_toLower {c : Char} (h : c.toLower.isAlpha = true) : c.isAlpha = true := by
  by_cases hup : c.isUpper = true
  · simp [Char.isAlpha, hup]
  · have hsame : c.toLower = c := by
      rw [Char.toLower, dif_neg]
      intro hle
      exact hup (by simpa [Char.isUpper] using hle)
    rwa [hsame] at h

theorem mem_isWord {word : String} {cs : List Char} (hword : word.toList.all Char.isAlpha = true)
    (h : isWord word cs = true) {c : Char} (hc : c ∈ cs) : isNumeralChar c = true := by
  rw [isWord, beq_iff_eq] at h
  have hmem : c.toLower ∈ word.toList := h ▸ List.mem_map_of_mem hc
  exact isNumeralChar_of_isAlpha (isAlpha_of_toLower (List.all_eq_true.mp hword _ hmem))

theorem mem_special {cs : List Char} {x : F64} (h : special cs = some x) {c : Char} (hc : c ∈ cs) :
    isNumeralChar c = true := by
  simp only [special] at h
  split at h
  · next hinf =>
      rcases Bool.or_eq_true_iff.mp hinf with hinf | hinf
      · exact mem_isWord (by decide) hinf hc
      · exact mem_isWord (by decide) hinf hc
  split at h
  · next hnan => exact mem_isWord (by decide) hnan hc
  · cases h

/-- **An accepted literal consists of letters, digits, signs and dots.** -/
theorem isNumeralChar_of_f64FromStr {s : String} {x : F64} (h : f64FromStr s = some x) :
    ∀ c ∈ s.toList, isNumeralChar c = true := by
  intro c hc
  rcases mem_takeSign hc with hc | hc
  · exact hc
  obtain ⟨y, hy, -⟩ := Option.map_eq_some_iff.mp h
  cases hnum : number (takeSign s.toList).2 with
  | some z => exact mem_number hnum hc
  | none =>
      rw [hnum] at hy
      exact mem_special hy hc

/-! ## Printing integers -/

theorem digits?_toDigits (n : Nat) : digits? (Nat.toDigits 10 n) = some n := by
  have hall : (Nat.toDigits 10 n).all Char.isDigit = true :=
    List.all_eq_true.mpr fun c hc => Nat.isDigit_of_mem_toDigits (by decide) (by decide) hc
  rw [digits?, if_pos ⟨Nat.toDigits_ne_nil, hall⟩, Nat.ofDigitChars_ten_toDigits]

/-- A digit string carries no sign. -/
theorem takeSign_toDigits (n : Nat) :
    takeSign (Nat.toDigits 10 n) = (false, Nat.toDigits 10 n) := by
  have hdigit : ∀ c ∈ Nat.toDigits 10 n, c.isDigit = true := fun c hc =>
    Nat.isDigit_of_mem_toDigits (by decide) (by decide) hc
  unfold takeSign
  split
  · next cs hcs => exact absurd (hdigit '-' (by simp [hcs])) (by decide)
  · next cs hcs => exact absurd (hdigit '+' (by simp [hcs])) (by decide)
  · rfl

theorem toList_toString_int (n : Int) : (toString n).toList =
    if 0 ≤ n then Nat.toDigits 10 n.toNat else '-' :: Nat.toDigits 10 (-n).toNat := by
  rw [Int.toString_eq_repr, Int.repr_eq_if]
  split
  · exact Nat.toList_repr
  · rw [String.toList_append, Nat.toList_repr]
    rfl

/-- **Reading a printed integer gives it back.** -/
theorem i64FromStr_toString (n : Int64) : i64FromStr (toString n.toInt) = some n := by
  have hrange : -2 ^ 63 ≤ n.toInt ∧ n.toInt < 2 ^ 63 := ⟨n.le_toInt, n.toInt_lt⟩
  have hsplit : withSign (takeSign (toString n.toInt).toList).1
      ((digits? (takeSign (toString n.toInt).toList).2).getD 0) = n.toInt ∧
      (digits? (takeSign (toString n.toInt).toList).2).isSome := by
    rw [toList_toString_int]
    split
    · rw [takeSign_toDigits, digits?_toDigits]
      exact ⟨Int.toNat_of_nonneg ‹_›, rfl⟩
    · rw [takeSign, digits?_toDigits]
      refine ⟨?_, rfl⟩
      simp only [withSign, if_true, Option.getD_some]
      omega
  obtain ⟨hvalue, hsome⟩ := hsplit
  obtain ⟨m, hm⟩ := Option.isSome_iff_exists.mp hsome
  rw [hm, Option.getD_some] at hvalue
  simp only [i64FromStr, hm, Option.bind_eq_bind, Option.bind_some, hvalue, hrange, and_self,
    if_true, Int64.ofInt_toInt]

/-- A printed integer consists of digits and a minus sign. -/
theorem mem_toString_int {n : Int} {c : Char} (h : c ∈ (toString n).toList) :
    c.isDigit = true ∨ c = '-' := by
  have hdigit (m : Nat) : c ∈ Nat.toDigits 10 m → c.isDigit = true :=
    Nat.isDigit_of_mem_toDigits (by decide) (by decide)
  rw [toList_toString_int] at h
  split at h
  · exact .inl (hdigit _ h)
  · rcases List.mem_cons.mp h with h | h
    · exact .inr h
    · exact .inl (hdigit _ h)

theorem toString_int_ne_nil (n : Int) : (toString n).toList ≠ [] := by
  rw [toList_toString_int]
  split
  · exact Nat.toDigits_ne_nil
  · exact List.cons_ne_nil _ _

end Numerals
