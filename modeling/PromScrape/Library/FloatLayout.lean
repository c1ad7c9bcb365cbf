import PromScrape.Library.FloatReading
import PromScrape.Library.Numerals

set_option autoImplicit false

/-! # Reading the text of a double

Text is rounded as a number, so the digits of a double read back as the double in every layout: with
zeros for its scale, with a decimal point, or with an exponent. -/

namespace FloatText

open Float.Model Float.Model.UnpackedFloat
open Numerals (decimal digits? exponent f64FromStr isSign number takeSign takeSign_of_not_sign
  unsigned unsigned_sign)

/-! ## Digits -/

/-- Digits and a power of ten that read back as the double. -/
structure Digits (bits : UInt64) (digits : List Char) (s : Int) : Prop where
  digit : ∀ c ∈ digits, c.isDigit = true
  reads : Reads bits (Nat.ofDigitChars 10 digits 0) s
  length : (digits.length : Int) + s ≤ 310

section

variable {bits : UInt64} {digits : List Char} {s : Int}

theorem Digits.ne_nil (h : Digits bits digits s) : digits ≠ [] := by
  rintro rfl
  exact absurd h.reads.pos (by decide)

/-- The number of digits is in range, too. -/
theorem Reads.decimals_le {q : Nat} (h : Reads bits q s) : (decimals q : Int) + s ≤ 310 := by
  obtain ⟨hle, -, hpos⟩ := decimals_bounds h.pos
  have hscale : ((10 ^ (decimals q - 1) : Nat) * 10 ^ s : ℚ) ≤ q * 10 ^ s := by
    have : ((10 ^ (decimals q - 1) : Nat) : ℚ) ≤ q := by exact_mod_cast hle
    gcongr
  have hlt := hscale.trans_lt h.small
  rw [Nat.cast_pow, Nat.cast_ofNat, ← zpow_natCast, ← zpow_add₀ (by norm_num),
    zpow_lt_zpow_iff_right₀ (by norm_num)] at hlt
  omega

/-- Trailing zeros move from the digits to the power of ten. -/
theorem trimZeros_digits {q : Nat} (h : Reads bits q s) :
    Digits bits (trimZeros q s).1 (trimZeros q s).2 := by
  obtain ⟨zeros, hzeros⟩ : ∃ zeros, Nat.toDigits 10 q =
      (trimZeros q s).1 ++ List.replicate zeros '0' := by
    have hsplit := congrArg List.reverse
      (@List.takeWhile_append_dropWhile _ (· == '0') (Nat.toDigits 10 q).reverse)
    rw [List.reverse_append, List.reverse_reverse] at hsplit
    refine ⟨((Nat.toDigits 10 q).reverse.takeWhile (· == '0')).reverse.length, ?_⟩
    have hall : ∀ c ∈ ((Nat.toDigits 10 q).reverse.takeWhile (· == '0')).reverse, c = '0' :=
      fun c hc => beq_iff_eq.mp (List.mem_takeWhile_imp (p := (· == '0')) (List.mem_reverse.mp hc))
    rw [← List.eq_replicate_of_mem hall]
    exact hsplit.symm
  have hscale : (trimZeros q s).2 = s + zeros := by
    have hlength := congrArg List.length hzeros
    rw [List.length_append, List.length_replicate] at hlength
    show s + ((Nat.toDigits 10 q).length - (trimZeros q s).1.length : Nat) = s + zeros
    rw [hlength, Nat.add_sub_cancel_left]
  have hnumber : q = 10 ^ zeros * Nat.ofDigitChars 10 (trimZeros q s).1 0 := by
    calc q = Nat.ofDigitChars 10 (Nat.toDigits 10 q) 0 := Nat.ofDigitChars_ten_toDigits.symm
      _ = 10 ^ zeros * Nat.ofDigitChars 10 (trimZeros q s).1 0 := by
        rw [hzeros, Nat.ofDigitChars_append, Nat.ofDigitChars_replicate_zero]
  refine ⟨fun c hc => ?_, h.congr ?_ ?_, ?_⟩
  · exact Nat.isDigit_of_mem_toDigits (by decide) (by decide)
      (hzeros ▸ List.mem_append_left _ hc)
  · rw [hscale]
    have := h.low
    omega
  · conv_rhs => rw [hnumber]
    rw [hscale, zpow_add₀ (by norm_num), zpow_natCast]
    push_cast
    ring
  · have hle := h.decimals_le
    rw [decimals, hzeros, List.length_append, List.length_replicate] at hle
    rw [hscale]
    push_cast at hle
    omega

/-! ## Literals -/

theorem digits?_eq {cs : List Char} (hne : cs ≠ []) (hcs : ∀ c ∈ cs, c.isDigit = true) :
    digits? cs = some (Nat.ofDigitChars 10 cs 0) :=
  if_pos ⟨hne, List.all_eq_true.mpr hcs⟩

theorem isDigit_stop {rest : List Char} (hrest : ∀ c ∈ rest.head?, c.isDigit = false) :
    rest.takeWhile Char.isDigit = [] ∧ rest.dropWhile Char.isDigit = rest := by
  cases rest with
  | nil => exact ⟨rfl, rfl⟩
  | cons c rest => simp [hrest c rfl]

/-- Digits up to the end or to something that is neither a digit nor a point. -/
theorem decimal_whole {whole rest : List Char} (hne : whole ≠ [])
    (hwhole : ∀ c ∈ whole, c.isDigit = true)
    (hrest : ∀ c ∈ rest.head?, c.isDigit = false ∧ c ≠ '.') :
    decimal (whole ++ rest) = some (Nat.ofDigitChars 10 whole 0, 0, rest) := by
  have hstop := isDigit_stop fun c hc => (hrest c hc).1
  unfold decimal
  rw [List.takeWhile_append_of_pos hwhole, List.dropWhile_append_of_pos hwhole, hstop.1, hstop.2,
    List.append_nil]
  cases rest with
  | nil => simp [digits?_eq hne hwhole]
  | cons c rest =>
      split
      · next heq => exact absurd (List.cons.inj heq).1 (hrest c rfl).2
      · simp [digits?_eq hne hwhole]

/-- Digits with a point between them. -/
theorem decimal_point {whole fraction rest : List Char} (hne : whole ++ fraction ≠ [])
    (hdigit : ∀ c ∈ whole ++ fraction, c.isDigit = true)
    (hrest : ∀ c ∈ rest.head?, c.isDigit = false) :
    decimal (whole ++ '.' :: (fraction ++ rest)) =
      some (Nat.ofDigitChars 10 (whole ++ fraction) 0, fraction.length, rest) := by
  have hwhole : ∀ c ∈ whole, c.isDigit = true := fun c hc =>
    hdigit c (List.mem_append_left _ hc)
  have hfraction : ∀ c ∈ fraction, c.isDigit = true := fun c hc =>
    hdigit c (List.mem_append_right _ hc)
  have hstop := isDigit_stop hrest
  have hpoint : ('.' :: (fraction ++ rest)).takeWhile Char.isDigit = [] ∧
      ('.' :: (fraction ++ rest)).dropWhile Char.isDigit = '.' :: (fraction ++ rest) :=
    isDigit_stop fun c hc => by
      obtain rfl : '.' = c := Option.some.inj hc
      rfl
  unfold decimal
  rw [List.takeWhile_append_of_pos hwhole, List.dropWhile_append_of_pos hwhole, hpoint.1, hpoint.2,
    List.append_nil]
  simp only [List.takeWhile_append_of_pos hfraction, List.dropWhile_append_of_pos hfraction,
    hstop.1, hstop.2, List.append_nil, digits?_eq hne hdigit, Option.map_some]

/-- **A literal reads as the double that its digits read back as.** -/
theorem number_eq {cs rest : List Char} {q k : Nat} {e : Int} (hdecimal : decimal cs = some (q, k, rest))
    (hexponent : exponent rest = some e) (h : Reads bits q (e - k)) : number cs = some ⟨bits⟩ := by
  have hreads : (Float.Model.ofScientific q (e - k)).toBits = bits := beq_iff_eq.mp h.reads
  simp [number, hdecimal, hexponent, hreads]

/-! ## Layouts -/

/-- The layout of `Display`. -/
def plain (digits : List Char) (s : Int) : List Char :=
  if 0 ≤ s then digits ++ List.replicate s.toNat '0'
  else if 0 < (digits.length : Int) + s then
    digits.take ((digits.length : Int) + s).toNat ++
      '.' :: digits.drop ((digits.length : Int) + s).toNat
  else '0' :: '.' :: (List.replicate (-((digits.length : Int) + s)).toNat '0' ++ digits)

theorem display_eq (x : F64) :
    display x = signText x ++ String.ofList (plain (digitsOf x).1 (digitsOf x).2) := rfl

/-- The mantissa of `LowerExp`. -/
def mantissaText (digits : List Char) : List Char :=
  digits.take 1 ++ if digits.drop 1 = [] then [] else '.' :: digits.drop 1

theorem lowerExp_eq (x : F64) :
    lowerExp x = signText x ++ String.ofList (mantissaText (digitsOf x).1) ++ "e" ++
      toString ((digitsOf x).2 + ((digitsOf x).1.length : Int) - 1) := rfl

theorem ofDigitChars_zeros (n : Nat) (digits : List Char) :
    Nat.ofDigitChars 10 (List.replicate n '0' ++ digits) 0 = Nat.ofDigitChars 10 digits 0 := by
  rw [Nat.ofDigitChars_append, Nat.ofDigitChars_replicate_zero, Nat.mul_zero]

theorem isDigit_zeros {n : Nat} {c : Char} (h : c ∈ List.replicate n '0') : c.isDigit = true := by
  rw [List.eq_of_mem_replicate h]
  rfl

/-- **`Display` reads back.** -/
theorem number_plain (h : Digits bits digits s) : number (plain digits s) = some ⟨bits⟩ := by
  unfold plain
  split
  · next hs =>
      obtain ⟨n, rfl⟩ := Int.eq_ofNat_of_zero_le hs
      have hdecimal := @decimal_whole (digits ++ List.replicate n '0') []
        (List.append_ne_nil_of_left_ne_nil h.ne_nil _)
        (fun c hc => (List.mem_append.mp hc).elim (h.digit c) isDigit_zeros) nofun
      rw [List.append_nil, Nat.ofDigitChars_append, Nat.ofDigitChars_replicate_zero] at hdecimal
      refine number_eq hdecimal rfl (h.reads.congr (by decide) ?_)
      push_cast
      rw [mul_one, zpow_natCast, mul_comm]
  next hs =>
  split
  · next hwhole =>
      have hdecimal := @decimal_point (digits.take ((digits.length : Int) + s).toNat)
        (digits.drop ((digits.length : Int) + s).toNat) []
        (by rw [List.take_append_drop]; exact h.ne_nil)
        (by rw [List.take_append_drop]; exact h.digit) nofun
      rw [List.append_nil, List.take_append_drop, List.length_drop] at hdecimal
      refine number_eq hdecimal rfl ?_
      rw [show (0 : Int) - (digits.length - ((digits.length : Int) + s).toNat : Nat) = s by omega]
      exact h.reads
  · next hwhole =>
      obtain ⟨n, hn⟩ : ∃ n : Nat, -((digits.length : Int) + s) = n :=
        ⟨_, (Int.toNat_of_nonneg (by omega)).symm⟩
      have hdecimal := @decimal_point ['0'] (List.replicate n '0' ++ digits) []
        (List.cons_ne_nil _ _)
        (fun c hc => by
          rcases List.mem_append.mp hc with hc | hc
          · exact @isDigit_zeros 1 c hc
          · exact (List.mem_append.mp hc).elim isDigit_zeros (h.digit c))
        nofun
      rw [List.append_nil, ← List.append_assoc ['0'], ← List.replicate_one, ← List.replicate_add,
        ofDigitChars_zeros, List.length_append, List.length_replicate] at hdecimal
      rw [hn, Int.toNat_natCast]
      refine number_eq hdecimal rfl ?_
      rw [show (0 : Int) - (n + digits.length : Nat) = s by push_cast; omega]
      exact h.reads

/-- A number without a point may get one. -/
theorem number_plain_point (h : Digits bits digits s) (hpoint : '.' ∉ plain digits s) :
    number (plain digits s ++ ['.', '0']) = some ⟨bits⟩ := by
  have hs : 0 ≤ s := by
    by_contra hs
    rw [plain, if_neg hs] at hpoint
    split at hpoint <;> simp at hpoint
  obtain ⟨n, rfl⟩ := Int.eq_ofNat_of_zero_le hs
  have hplain : plain digits n = digits ++ List.replicate n '0' := if_pos hs
  have hdecimal := @decimal_point (digits ++ List.replicate n '0') ['0'] []
    (List.append_ne_nil_of_right_ne_nil _ (List.cons_ne_nil _ _))
    (fun c hc => by
      rcases List.mem_append.mp hc with hc | hc
      · exact (List.mem_append.mp hc).elim (h.digit c) isDigit_zeros
      · exact @isDigit_zeros 1 c hc)
    nofun
  have hnumber : Nat.ofDigitChars 10 (digits ++ List.replicate n '0' ++ ['0']) 0 =
      10 ^ (n + 1) * Nat.ofDigitChars 10 digits 0 := by
    rw [List.append_assoc, ← List.replicate_one, ← List.replicate_add, Nat.ofDigitChars_append,
      Nat.ofDigitChars_replicate_zero]
  rw [List.append_nil, hnumber] at hdecimal
  rw [hplain]
  refine number_eq hdecimal rfl (h.reads.congr (by decide) ?_)
  push_cast
  rw [zpow_natCast, pow_succ]
  norm_num
  ring

/-- **`LowerExp` reads back**, with any way to write its exponent. -/
theorem number_mantissaText (h : Digits bits digits s) {text : List Char}
    (htext : exponent ('e' :: text) = some (s + digits.length - 1)) :
    number (mantissaText digits ++ 'e' :: text) = some ⟨bits⟩ := by
  have hhead : ∀ c ∈ ('e' :: text).head?, c.isDigit = false ∧ c ≠ '.' := by
    intro c hc
    obtain rfl : 'e' = c := Option.some.inj hc
    decide
  obtain ⟨first, fraction, rfl⟩ := List.exists_cons_of_ne_nil h.ne_nil
  unfold mantissaText
  rw [List.drop_one, List.tail_cons]
  split
  · next hfraction =>
      subst hfraction
      have hdecimal := decimal_whole (List.cons_ne_nil first []) h.digit hhead
      refine number_eq hdecimal htext ?_
      rw [show s + ([first].length : Nat) - 1 - (0 : Nat) = s by simp]
      exact h.reads
  · next hfraction =>
      have hdecimal := @decimal_point [first] fraction ('e' :: text) (List.cons_ne_nil _ _) h.digit
        fun c hc => (hhead c hc).1
      rw [List.append_assoc]
      refine number_eq hdecimal htext ?_
      rw [show s + ((first :: fraction).length : Nat) - 1 - (fraction.length : Nat) = s by
        rw [List.length_cons]
        push_cast
        omega]
      exact h.reads

end

/-! ## Doubles -/

/-- A double without the payload and the sign of a NaN. -/
def quiet (x : F64) : F64 := if F64.infinity.bits < x.bits &&& 0x7fffffffffffffff then F64.nan else x

theorem quiet_eq {x : F64} (h : x.bits &&& 0x7fffffffffffffff ≤ F64.infinity.bits) : quiet x = x :=
  if_neg (UInt64.not_lt.mpr h)

/-- A number does not start with a sign. -/
theorem head_number {cs : List Char} {x : F64} (h : number cs = some x) :
    ∀ c ∈ cs.head?, isSign c = false := by
  intro c hc
  cases cs with
  | nil => cases hc
  | cons d cs =>
      obtain rfl : d = c := Option.some.inj hc
      by_contra hsign
      have hnone := unsigned_sign (Bool.eq_true_of_not_eq_false hsign) cs
      rw [unsigned, h] at hnone
      cases hnone

/-- The text of a sign is read back, too. -/
theorem f64FromStr_signed {x : F64} {cs : List Char}
    (h : number cs = some ⟨x.bits &&& 0x7fffffffffffffff⟩) :
    f64FromStr (signText x ++ String.ofList cs) = some x := by
  rw [f64FromStr]
  rcases magnitude_or_neg x.bits.toBitVec with ⟨hsign, hbits⟩ | ⟨hsign, hbits⟩
  · have hpositive : x.bits &&& 0x8000000000000000 = 0 := UInt64.toBitVec_inj.mp hsign
    have hsame : x.bits &&& 0x7fffffffffffffff = x.bits := UInt64.toBitVec_inj.mp hbits
    rw [signText, if_pos hpositive, String.empty_append, String.toList_ofList,
      takeSign_of_not_sign (head_number h), h, hsame]
    rfl
  · have hnegative : x.bits &&& 0x8000000000000000 ≠ 0 :=
      fun hzero => hsign (congrArg UInt64.toBitVec hzero)
    have hsame : (x.bits &&& 0x7fffffffffffffff) ^^^ 0x8000000000000000 = x.bits :=
      UInt64.toBitVec_inj.mp hbits
    rw [signText, if_neg hnegative, String.toList_append, @String.toList_ofList cs]
    show ((number cs <|> Numerals.special cs).map F64.neg) = some x
    rw [h]
    show some (F64.neg ⟨x.bits &&& 0x7fffffffffffffff⟩) = some x
    rw [F64.neg, hsame]

/-- The digits of a finite double other than zero read back as its magnitude. -/
theorem digitsOf_digits {x : F64} (hzero : x.bits &&& 0x7fffffffffffffff ≠ 0)
    (hfinite : x.bits &&& 0x7fffffffffffffff < F64.infinity.bits) :
    Digits (x.bits &&& 0x7fffffffffffffff) (digitsOf x).1 (digitsOf x).2 := by
  have hbits : (x.bits &&& 0x7fffffffffffffff).toBitVec = x.bits.toBitVec &&& magnitudeMask := rfl
  rcases unpack_cases x.bits.toBitVec with ⟨-, hlt⟩ | ⟨-, heq⟩ | ⟨-, heq⟩ | ⟨⟨sign, m, e, hm, h⟩, -⟩
  · exact absurd (UInt64.lt_iff_toBitVec_lt.mp hfinite) (BitVec.not_lt.mpr (BitVec.le_of_lt hlt))
  · rw [← hbits] at heq
    rw [UInt64.toBitVec_inj.mp heq] at hfinite
    exact absurd hfinite (by decide)
  · exact absurd (UInt64.toBitVec_inj.mp (hbits.trans heq)) hzero
  · obtain ⟨q, s, hreads, hshortest⟩ := shortest_reads h
    have hdigits : digitsOf x = trimZeros q s := by
      rw [digitsOf, ofBits_unpack h]
      exact hshortest
    rw [hdigits]
    exact trimZeros_digits hreads

theorem eq_zero_or_negZero {x : F64} (h : x.bits &&& 0x7fffffffffffffff = 0) :
    x = F64.zero ∨ x = F64.negZero := by
  obtain ⟨bits⟩ := x
  rcases magnitude_or_neg bits.toBitVec with ⟨-, hbits⟩ | ⟨-, hbits⟩
  all_goals
    rw [show bits.toBitVec &&& magnitudeMask = 0#64 from congrArg UInt64.toBitVec h] at hbits
  · exact .inl (congrArg F64.mk (UInt64.toBitVec_inj.mp hbits.symm))
  · exact .inr (congrArg F64.mk (UInt64.toBitVec_inj.mp hbits.symm))

theorem eq_infinity_or_neg {x : F64} (h : x.bits &&& 0x7fffffffffffffff = F64.infinity.bits) :
    x = F64.infinity ∨ x = F64.infinity.neg := by
  obtain ⟨bits⟩ := x
  rcases magnitude_or_neg bits.toBitVec with ⟨-, hbits⟩ | ⟨-, hbits⟩
  all_goals
    rw [show bits.toBitVec &&& magnitudeMask = F64.infinity.bits.toBitVec from
      congrArg UInt64.toBitVec h] at hbits
  · exact .inl (congrArg F64.mk (UInt64.toBitVec_inj.mp hbits.symm))
  · exact .inr (congrArg F64.mk (UInt64.toBitVec_inj.mp hbits.symm))

/-- **What `Display` writes for a finite double reads back as that double.** -/
theorem f64FromStr_display {x : F64}
    (hfinite : x.bits &&& 0x7fffffffffffffff < F64.infinity.bits) :
    f64FromStr (display x) = some x := by
  by_cases hzero : x.bits &&& 0x7fffffffffffffff = 0
  · rcases eq_zero_or_negZero hzero with rfl | rfl <;> decide +kernel
  · rw [display_eq]
    exact f64FromStr_signed (number_plain (digitsOf_digits hzero hfinite))

/-- **What is written for a double reads back as that double**, but for what a NaN carries. -/
theorem f64FromStr_toText (x : F64) : f64FromStr (toText x) = some (quiet x) := by
  rcases unpack_cases x.bits.toBitVec with ⟨h, hlt⟩ | ⟨-, heq⟩ | ⟨-, heq⟩ | ⟨⟨_, _, _, _, h⟩, hlt⟩
  · have hnan : (Float.Model.ofBits x.bits).unpack = .notANumber := by
      have hpack : (Float.Model.ofBits x.bits).unpack =
          UnpackedFloat.unpack Format.binary64 (UnpackedFloat.pack Format.binary64
            (UnpackedFloat.unpack Format.binary64 x.bits.toBitVec)) := rfl
      rw [hpack, h]
      rfl
    have hlarge : F64.infinity.bits < x.bits &&& 0x7fffffffffffffff :=
      UInt64.lt_iff_toBitVec_lt.mpr hlt
    rw [quiet, if_pos hlarge, toText, hnan]
    show f64FromStr "NaN" = some F64.nan
    decide
  · have hinfinity : x.bits &&& 0x7fffffffffffffff = F64.infinity.bits := UInt64.toBitVec_inj.mp heq
    rcases eq_infinity_or_neg hinfinity with rfl | rfl <;> decide +kernel
  · have hzero : x.bits &&& 0x7fffffffffffffff = 0 := UInt64.toBitVec_inj.mp heq
    rcases eq_zero_or_negZero hzero with rfl | rfl <;> decide +kernel
  · have hfinite : x.bits &&& 0x7fffffffffffffff < F64.infinity.bits :=
      UInt64.lt_iff_toBitVec_lt.mpr hlt
    rw [quiet_eq (UInt64.le_of_lt hfinite), toText, ofBits_unpack h]
    exact f64FromStr_display hfinite

end FloatText
