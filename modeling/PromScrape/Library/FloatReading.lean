import PromScrape.Library.FloatText
import PromScrape.Library.Numerals
import PromScrape.Library.Rounding

set_option autoImplicit false

/-! # Reading what was written

The text of a double reads back as that double, for every bit pattern other than a NaN. Seventeen
digits are always enough, so the search for the shortest digits ends with digits that it has checked;
and text is rounded as a number, however its digits are laid out. -/

namespace FloatText

open Float.Model Float.Model.UnpackedFloat
open Numerals (f64FromStr digits?)
open Rounding (Canonical ofScientific_eq)

/-! ## The fields of a double -/

section

variable {b : BitVec 64}

theorem fields_eq (b : BitVec 64) :
    (@unpackSign Format.binary64 b ++ @unpackExponent Format.binary64 b ++
      @unpackMantissa Format.binary64 b : BitVec 64) = b := by
  refine BitVec.eq_of_getLsbD_eq fun i (hi : i < 64) => ?_
  change (b.extractLsb 63 63 ++ b.extractLsb 62 52 ++ b.extractLsb 51 0 : BitVec 64).getLsbD i = _
  simp only [BitVec.getLsbD_append, BitVec.getLsbD_extractLsb]
  by_cases hmantissa : i < 52
  · simp [hmantissa]
  · by_cases hexponent : i < 63
    · have hfield : i - 52 < 11 := by omega
      have hback : 52 + (i - 52) = i := by omega
      simp [hmantissa, hfield, hback]
    · obtain rfl : i = 63 := by omega
      simp

/-- The magnitude of a double: its sign bit cleared. -/
def magnitudeMask : BitVec 64 := 0x7fffffffffffffff#64

theorem and_mask (sign : BitVec 1) (exponent : BitVec 11) (mantissa : BitVec 52) :
    (sign ++ exponent ++ mantissa : BitVec 64) &&& magnitudeMask =
      (0#1 ++ exponent ++ mantissa : BitVec 64) := by
  refine BitVec.eq_of_getLsbD_eq fun i hi => ?_
  simp only [BitVec.getLsbD_append, BitVec.getLsbD_and]
  by_cases hlow : i < 63
  · have hmask : magnitudeMask.getLsbD i = true := by
      interval_cases i <;> rfl
    by_cases hmantissa : i < 52
    · simp [hmask, hmantissa]
    · have hfield : i - 52 < 11 := by omega
      simp [hmask, hmantissa, hfield]
  · obtain rfl : i = 63 := by omega
    rw [show magnitudeMask.getLsbD 63 = false from rfl, Bool.and_false]
    simp

/-- A double is its magnitude and its sign bit. -/
theorem magnitude_or_neg (b : BitVec 64) :
    (b &&& 0x8000000000000000#64 = 0#64 ∧ b &&& magnitudeMask = b) ∨
      (b &&& 0x8000000000000000#64 ≠ 0#64 ∧ (b &&& magnitudeMask) ^^^ 0x8000000000000000#64 = b) := by
  have hsign (i : Nat) (hi : i < 64) :
      (0x8000000000000000#64).getLsbD i = decide (i = 63) := by
    interval_cases i <;> rfl
  have hmask (i : Nat) (hi : i < 64) : magnitudeMask.getLsbD i = decide (i ≠ 63) := by
    interval_cases i <;> rfl
  cases hbit : b.getLsbD 63 with
  | false =>
      refine .inl ⟨BitVec.eq_of_getLsbD_eq fun i hi => ?_, BitVec.eq_of_getLsbD_eq fun i hi => ?_⟩
      · rw [BitVec.getLsbD_and, hsign i hi, BitVec.getLsbD_zero]
        by_cases h : i = 63
        · rw [h, hbit, Bool.false_and]
        · simp [h]
      · rw [BitVec.getLsbD_and, hmask i hi]
        by_cases h : i = 63
        · rw [h, hbit, Bool.false_and]
        · simp [h]
  | true =>
      refine .inr ⟨fun hzero => ?_, BitVec.eq_of_getLsbD_eq fun i hi => ?_⟩
      · have hget := congrArg (BitVec.getLsbD · 63) hzero
        simp only [BitVec.getLsbD_and, hbit, hsign 63 (by decide)] at hget
        simp at hget
      · rw [BitVec.getLsbD_xor, BitVec.getLsbD_and, hmask i hi, hsign i hi]
        by_cases h : i = 63
        · simp [h, hbit]
        · simp [h]

theorem magnitude_toNat (b : BitVec 64) :
    (b &&& magnitudeMask).toNat = (@unpackExponent Format.binary64 b).toNat * 2 ^ 52 +
      (@unpackMantissa Format.binary64 b).toNat := by
  have hfields := and_mask (@unpackSign Format.binary64 b) (@unpackExponent Format.binary64 b)
    (@unpackMantissa Format.binary64 b)
  rw [fields_eq] at hfields
  have hmantissa : (@unpackMantissa Format.binary64 b).toNat < 2 ^ 52 :=
    (@unpackMantissa Format.binary64 b).isLt
  rw [hfields, BitVec.toNat_append, BitVec.toNat_append,
    ← Nat.shiftLeft_add_eq_or_of_lt hmantissa]
  simp [Nat.shiftLeft_eq]

theorem implicit_toNat (mantissa : BitVec 52) :
    (1#1 ++ mantissa).toNat = 2 ^ 52 + mantissa.toNat := by
  rw [BitVec.toNat_append, ← Nat.shiftLeft_add_eq_or_of_lt mantissa.isLt]
  simp

/-- What a double is, and how its magnitude tells. -/
theorem unpack_cases (b : BitVec 64) :
    (UnpackedFloat.unpack Format.binary64 b = .notANumber ∧
        0x7ff0000000000000#64 < b &&& magnitudeMask) ∨
      ((∃ sign, UnpackedFloat.unpack Format.binary64 b = .infinity sign) ∧
        b &&& magnitudeMask = 0x7ff0000000000000#64) ∨
      ((∃ sign, UnpackedFloat.unpack Format.binary64 b = .zero sign) ∧
        b &&& magnitudeMask = 0#64) ∨
      (∃ sign m e hm, UnpackedFloat.unpack Format.binary64 b = .finite sign m e hm) ∧
        b &&& magnitudeMask < 0x7ff0000000000000#64 := by
  have hmagnitude := magnitude_toNat b
  unfold UnpackedFloat.unpack
  obtain ⟨exponent, hexponentField⟩ : ∃ exponent, @unpackExponent Format.binary64 b = exponent :=
    ⟨_, rfl⟩
  obtain ⟨mantissa, hmantissaField⟩ : ∃ mantissa, @unpackMantissa Format.binary64 b = mantissa :=
    ⟨_, rfl⟩
  have hmantissa : mantissa.toNat < 2 ^ 52 := mantissa.isLt
  have hexponent : exponent.toNat < 2 ^ 11 := exponent.isLt
  simp only [hexponentField, hmantissaField] at hmagnitude ⊢
  have hinfinity : (0x7ff0000000000000#64).toNat = 2047 * 2 ^ 52 := rfl
  by_cases hmax : exponent = -1#11
  · have htop : exponent.toNat = 2047 := by rw [hmax]; rfl
    by_cases hzero : mantissa = 0#52
    · refine .inr (.inl ⟨⟨_, by rw [if_pos hmax, if_pos hzero]⟩, BitVec.eq_of_toNat_eq ?_⟩)
      rw [hmagnitude, htop, hzero, hinfinity]
      rfl
    · refine .inl ⟨by rw [if_pos hmax, if_neg hzero], BitVec.lt_def.mpr ?_⟩
      have hpos : mantissa.toNat ≠ 0 := fun h => hzero (BitVec.eq_of_toNat_eq h)
      omega
  · have hbelow : exponent.toNat ≠ 2047 := fun h => hmax (BitVec.eq_of_toNat_eq h)
    have hless : b &&& magnitudeMask < 0x7ff0000000000000#64 := BitVec.lt_def.mpr (by omega)
    by_cases hsmall : exponent = 0#11
    · by_cases hzero : mantissa = 0#52
      · refine .inr (.inr (.inl ⟨⟨_, by rw [if_neg hmax, if_pos hsmall, dif_pos hzero]⟩,
          BitVec.eq_of_toNat_eq ?_⟩))
        rw [hmagnitude, hsmall, hzero]
        rfl
      · have hpos : 0 < mantissa.toNat :=
          Nat.pos_of_ne_zero fun h => hzero (BitVec.eq_of_toNat_eq h)
        exact .inr (.inr (.inr ⟨⟨_, _, _, hpos, by rw [if_neg hmax, if_pos hsmall, dif_neg hzero]⟩,
          hless⟩))
    · have hpos : 0 < (1#1 ++ mantissa).toNat := by
        rw [implicit_toNat]
        omega
      exact .inr (.inr (.inr ⟨⟨_, _, _, hpos, by rw [if_neg hmax, if_neg hsmall]⟩, hless⟩))

/-- What the fields of a finite double say, and what packing it again gives. -/
structure Finite (b : BitVec 64) (m : Nat) (e : Int) (hm : 0 < m) : Prop where
  canonical : Canonical m e
  le : e ≤ 971
  pack : ∀ sign, UnpackedFloat.pack Format.binary64 (.finite sign m e hm) =
    (sign.toBitVec ++ @unpackExponent Format.binary64 b ++ @unpackMantissa Format.binary64 b :
      BitVec 64)

theorem finite_of_unpack {sign : Sign} {m : Nat} {e : Int} {hm : 0 < m}
    (h : UnpackedFloat.unpack Format.binary64 b = .finite sign m e hm) : Finite b m e hm := by
  unfold UnpackedFloat.unpack at h
  obtain ⟨exponent, hexponentField⟩ : ∃ exponent, @unpackExponent Format.binary64 b = exponent :=
    ⟨_, rfl⟩
  obtain ⟨mantissa, hmantissaField⟩ : ∃ mantissa, @unpackMantissa Format.binary64 b = mantissa :=
    ⟨_, rfl⟩
  have hmantissa : mantissa.toNat < 2 ^ 52 := mantissa.isLt
  have hexponent : exponent.toNat < 2 ^ 11 := exponent.isLt
  have hbias : (Format.binary64.exponentBias : Int) = 1023 := rfl
  have hbits : Format.binary64.mantissaBits = 53 := rfl
  simp only [hexponentField, hmantissaField] at h
  split at h
  · split at h <;> cases h
  next hmax =>
  have hbelow : exponent.toNat ≠ 2047 := fun heq => hmax (BitVec.eq_of_toNat_eq (by rw [heq]; rfl))
  split at h
  · next hzero =>
      split at h
      · cases h
      · -- A subnormal number.
        injection h with hsign hmeq heeq
        subst hmeq
        obtain rfl : e = -1074 := by rw [← heeq, hzero, hbias]; rfl
        refine ⟨⟨hm, by omega, le_rfl, .inr rfl⟩, by decide, fun sign => ?_⟩
        have hlog : mantissa.toNat.log2 < 52 := (Nat.log2_lt hm.ne').mpr hmantissa
        simp only [UnpackedFloat.pack]
        rw [if_neg (by decide), if_neg (by rw [hbits]; omega), hexponentField, hmantissaField, hzero]
        simp only [BitVec.ofNat_toNat, BitVec.setWidth_eq]
        rfl
  · next hnormal =>
      -- A normal number, with its implicit bit.
      injection h with hsign hmeq heeq
      have hpos : exponent.toNat ≠ 0 := fun heq =>
        hnormal (BitVec.eq_of_toNat_eq (by rw [heq]; rfl))
      have hvalue : m = 2 ^ 52 + mantissa.toNat := hmeq ▸ implicit_toNat mantissa
      obtain rfl : e = exponent.toNat - 1075 := by
        rw [← heeq, hbias]
        norm_num
      refine ⟨⟨hm, by omega, by omega, .inl (by omega)⟩, by omega, fun sign => ?_⟩
      have hlog : m.log2 = 52 := (Nat.log2_eq_iff hm.ne').mpr ⟨by omega, by omega⟩
      have hbiased : ((exponent.toNat : Int) - 1075 + Format.binary64.exponentBias +
          (52 : Nat)).toNat = exponent.toNat := by
        rw [hbias]
        omega
      have hfield : BitVec.ofNat 52 m = mantissa := by
        refine BitVec.eq_of_toNat_eq ?_
        rw [BitVec.toNat_ofNat, hvalue]
        omega
      simp only [UnpackedFloat.pack, hlog, hbiased, hfield, BitVec.ofNat_toNat, BitVec.setWidth_eq]
      rw [if_neg (by omega), if_pos (by rw [hbits]), hexponentField, hmantissaField]
      rfl

theorem Finite.pack_positive {m : Nat} {e : Int} {hm : 0 < m} (h : Finite b m e hm) :
    UnpackedFloat.pack Format.binary64 (.finite .positive m e hm) = b &&& magnitudeMask := by
  rw [h.pack]
  conv_rhs => rw [← fields_eq b, and_mask]
  rfl

theorem unpack_sign {sign : Sign} {m : Nat} {e : Int} {hm : 0 < m}
    (h : UnpackedFloat.unpack Format.binary64 b = .finite sign m e hm) :
    sign.toBitVec = @unpackSign Format.binary64 b := by
  have hsign : sign = Sign.ofBitVec (@unpackSign Format.binary64 b) := by
    unfold UnpackedFloat.unpack at h
    simp only at h
    split at h
    · split at h <;> cases h
    · split at h
      · split at h
        · cases h
        · injection h with hsign
          exact hsign.symm
      · injection h with hsign
        exact hsign.symm
  rw [hsign]
  rcases BitVec.eq_zero_or_eq_one (@unpackSign Format.binary64 b) with hbit | hbit <;>
    rw [hbit] <;> rfl

theorem ofBits_unpack {bits : UInt64} {sign : Sign} {m : Nat} {e : Int} {hm : 0 < m}
    (h : UnpackedFloat.unpack Format.binary64 bits.toBitVec = .finite sign m e hm) :
    (Float.Model.ofBits bits).unpack = .finite sign m e hm := by
  have hpack : UnpackedFloat.pack Format.binary64 (.finite sign m e hm) = bits.toBitVec := by
    rw [(finite_of_unpack h).pack, unpack_sign h, fields_eq]
  have hbits : (Float.Model.ofBits bits).unpack = UnpackedFloat.unpack Format.binary64
      (UnpackedFloat.pack Format.binary64
        (UnpackedFloat.unpack Format.binary64 bits.toBitVec)) := rfl
  rw [hbits, h, hpack, h]

end

/-- A decimal number near a finite double reads back as its magnitude. -/
theorem readsBack_near {bits : UInt64} {sign : Sign} {m : Nat} {e : Int} {hm : 0 < m}
    (h : UnpackedFloat.unpack Format.binary64 bits.toBitVec = .finite sign m e hm) {q : Nat}
    (hq : 0 < q) {s : Int} (hhigh : s ≤ 2048) (hlow : -2048 ≤ s)
    (hnear : |(q : ℚ) * 10 ^ s - m * 2 ^ e| * 2 ^ 54 < m * 2 ^ e) :
    readsBack (bits &&& 0x7fffffffffffffff) q s = true := by
  have hfinite := finite_of_unpack h
  have hround : UnpackedFloat.ofScientific Format.binary64 q s = .finite .positive m e hm := by
    rw [ofScientific_eq hq hhigh hlow, hfinite.canonical.roundRat_near .positive hnear]
  have hbits : (Float.Model.ofScientific q s).toBits =
      UInt64.ofBitVec (UnpackedFloat.pack Format.binary64
        (UnpackedFloat.ofScientific Format.binary64 q s)) := rfl
  rw [readsBack, beq_iff_eq, hbits, hround, hfinite.pack_positive]
  rfl

/-! ## Shortest digits -/

theorem decimals_bounds {n : Nat} (hn : 0 < n) :
    10 ^ (decimals n - 1) ≤ n ∧ n < 10 ^ decimals n ∧ 0 < decimals n := by
  have hpos : 0 < decimals n := Nat.length_toDigits_pos
  refine ⟨?_, (Nat.length_toDigits_le_iff (by decide) hpos).mp le_rfl, hpos⟩
  by_contra hlt
  rw [not_le] at hlt
  by_cases hone : decimals n = 1
  · rw [hone] at hlt
    simp only [Nat.sub_self, pow_zero] at hlt
    omega
  · have hle := (Nat.length_toDigits_le_iff (b := 10) (by decide) (by omega)).mpr hlt
    have : decimals n ≤ decimals n - 1 := hle
    omega

section

variable {num den : Nat}

theorem magnitude_bounds (hnum : 0 < num) (hden : 0 < den) :
    (10 : ℚ) ^ magnitude num den ≤ num / den ∧ (num / den : ℚ) < 10 ^ (magnitude num den + 1) := by
  have hdenq : (0 : ℚ) < den := by exact_mod_cast hden
  have hnumq : (0 : ℚ) < num := by exact_mod_cast hnum
  unfold magnitude
  split
  · next hle =>
      obtain ⟨hlow, hhigh, hpos⟩ := decimals_bounds (Nat.div_pos hle hden)
      have hexp : (decimals (num / den) : Int) - 1 = ((decimals (num / den) - 1 : Nat) : Int) := by
        omega
      rw [le_div_iff₀ hdenq, div_lt_iff₀ hdenq, sub_add_cancel, hexp, zpow_natCast, zpow_natCast]
      constructor
      · exact_mod_cast (Nat.le_div_iff_mul_le hden).mp hlow
      · exact_mod_cast (Nat.div_lt_iff_lt_mul hden).mp hhigh
  · next hlt =>
      have hbelow : 0 < (den - 1) / num := Nat.div_pos (by omega) hnum
      obtain ⟨hlow, hhigh, hpos⟩ := decimals_bounds hbelow
      have hexp : -(decimals ((den - 1) / num) : Int) + 1 =
          -((decimals ((den - 1) / num) - 1 : Nat) : Int) := by
        omega
      rw [hexp, zpow_neg, zpow_neg, zpow_natCast, zpow_natCast, inv_le_iff_one_le_mul₀ (by positivity),
        lt_inv_comm₀ (by positivity) (by positivity), inv_div, lt_div_iff₀ hnumq, div_mul_eq_mul_div,
        one_le_div hdenq]
      have hlow' := (Nat.le_div_iff_mul_le hnum).mp hlow
      have hhigh' := (Nat.div_lt_iff_lt_mul hnum).mp hhigh
      constructor
      · have : den ≤ num * 10 ^ decimals ((den - 1) / num) := by
          rw [Nat.mul_comm]
          omega
        exact_mod_cast this
      · have : 10 ^ (decimals ((den - 1) / num) - 1) * num < den := by omega
        exact_mod_cast this

theorem scaleDown_bounds (hden : 0 < den) (s : Int) :
    (scaleDown num den s : ℚ) * 10 ^ s ≤ num / den ∧
      (num / den : ℚ) < (scaleDown num den s + 1) * 10 ^ s := by
  have hdenq : (0 : ℚ) < den := by exact_mod_cast hden
  unfold scaleDown
  split
  · next hs =>
      obtain ⟨k, rfl⟩ := Int.eq_ofNat_of_zero_le hs
      have hpos : 0 < den * 10 ^ k := by positivity
      rw [le_div_iff₀ hdenq, div_lt_iff₀ hdenq]
      simp only [zpow_natCast, Int.toNat_natCast]
      have hlow := Nat.div_mul_le_self num (den * 10 ^ k)
      have hhigh := Nat.lt_div_mul_add hpos (a := num)
      constructor
      · have : num / (den * 10 ^ k) * 10 ^ k * den ≤ num := by
          rw [Nat.mul_assoc, Nat.mul_comm (10 ^ k)]
          exact hlow
        exact_mod_cast this
      · have : num < (num / (den * 10 ^ k) + 1) * 10 ^ k * den := by
          rw [Nat.mul_assoc, Nat.mul_comm (10 ^ k), Nat.add_mul, Nat.one_mul]
          exact hhigh
        exact_mod_cast this
  · next hs =>
      obtain ⟨k, rfl⟩ : ∃ k : Nat, s = -k := ⟨(-s).toNat, by omega⟩
      have hten : (0 : ℚ) < 10 ^ k := by positivity
      rw [zpow_neg, zpow_natCast, ← div_eq_mul_inv, ← div_eq_mul_inv, div_le_div_iff₀ hten hdenq,
        div_lt_div_iff₀ hdenq hten]
      simp only [neg_neg, Int.toNat_natCast]
      have hlow := Nat.div_mul_le_self (num * 10 ^ k) den
      have hhigh := Nat.lt_div_mul_add hden (a := num * 10 ^ k)
      constructor
      · exact_mod_cast hlow
      · have : num * 10 ^ k < (num * 10 ^ k / den + 1) * den := by
          rw [Nat.add_mul, Nat.one_mul]
          exact hhigh
        exact_mod_cast this

/-- There is a digit before the scale of a round. -/
theorem scaleDown_pos (hnum : 0 < num) (hden : 0 < den) {s : Int} (hs : s ≤ magnitude num den) :
    0 < scaleDown num den s := by
  have hle : (10 : ℚ) ^ s ≤ num / den :=
    (zpow_le_zpow_right₀ (by norm_num) hs).trans (magnitude_bounds hnum hden).1
  have hlt := hle.trans_lt (@scaleDown_bounds num den hden s).2
  have hscale : (0 : ℚ) < 10 ^ s := by positivity
  rw [Nat.pos_iff_ne_zero]
  intro hzero
  rw [hzero] at hlt
  simp at hlt

/-- Once a round of the search has digits to offer, the search ends with digits that it checked. -/
theorem shortestFrom_readsBack {bits : UInt64} {p : Int} {k₀ : Nat}
    (h : readsBack bits (scaleDown num den (p + 1 - k₀)) (p + 1 - k₀) = true ∨
      readsBack bits (scaleDown num den (p + 1 - k₀) + 1) (p + 1 - k₀) = true) (n : Nat) {k : Nat}
    (hle : k ≤ k₀) (hlt : k₀ < k + n) :
    readsBack bits (shortestFrom bits num den p n k).1 (shortestFrom bits num den p n k).2 = true ∧
      p + 1 - k₀ ≤ (shortestFrom bits num den p n k).2 ∧
      (shortestFrom bits num den p n k).2 ≤ p + 1 - k := by
  induction n generalizing k with
  | zero => omega
  | succ n ih =>
      rw [shortestFrom]
      split
      · next hlow =>
          rw [Bool.and_eq_true] at hlow
          exact ⟨hlow.1, by omega, le_rfl⟩
      · next hlow =>
          split
          · next hhigh => exact ⟨hhigh, by omega, le_rfl⟩
          · next hhigh =>
              -- Neither candidate of this round reads back, so it is not the round `k₀`.
              have hne : k ≠ k₀ := by
                rintro rfl
                rcases h with h | h
                · simp [h, hhigh] at hlow
                · exact hhigh h
              obtain ⟨hreads, hlo, hhi⟩ := @ih (k + 1) (by omega) (by omega)
              refine ⟨hreads, hlo, ?_⟩
              push_cast at hhi
              omega

/-- The search ends with one of the two decimals around the number. -/
theorem shortestFrom_candidate (bits : UInt64) (p : Int) (n k : Nat) :
    (shortestFrom bits num den p n k).1 = scaleDown num den (shortestFrom bits num den p n k).2 ∨
      (shortestFrom bits num den p n k).1 =
        scaleDown num den (shortestFrom bits num den p n k).2 + 1 := by
  induction n generalizing k with
  | zero => exact .inl rfl
  | succ n ih =>
      rw [shortestFrom]
      split
      · exact .inl rfl
      · split
        · exact .inr rfl
        · exact ih (k + 1)

theorem two_pow_lt_ten_pow : 2 ^ 1074 < 10 ^ 324 ∧ 2 ^ (53 + 971) < 10 ^ 309 := by decide +kernel

/-- The power of ten of a double is in a small range. -/
theorem magnitude_range {m : Nat} {e : Int} (h : Canonical m e) (he : e ≤ 971) (hnum : 0 < num)
    (hden : 0 < den) (hvalue : (num / den : ℚ) = m * 2 ^ e) :
    -324 ≤ magnitude num den ∧ magnitude num den ≤ 308 := by
  obtain ⟨hlow, hhigh⟩ := magnitude_bounds hnum hden
  rw [hvalue] at hlow hhigh
  have hmax : (m : ℚ) < 2 ^ 53 := by exact_mod_cast h.lt
  have hone : (1 : ℚ) ≤ m := by exact_mod_cast h.pos
  constructor
  · by_contra hlt
    have hexp : magnitude num den + 1 ≤ -324 := by omega
    have hsmall : (m * 2 ^ e : ℚ) < 10 ^ (-324 : Int) :=
      hhigh.trans_le (zpow_le_zpow_right₀ (by norm_num) hexp)
    have hleast : (2 : ℚ) ^ (-1074 : Int) ≤ m * 2 ^ e := by
      calc (2 : ℚ) ^ (-1074 : Int) ≤ 2 ^ e := zpow_le_zpow_right₀ (by norm_num) h.le
        _ = 1 * 2 ^ e := (one_mul _).symm
        _ ≤ m * 2 ^ e := by gcongr
    have hgap : (10 : ℚ) ^ (-324 : Int) < 2 ^ (-1074 : Int) := by
      rw [show (-324 : Int) = -(324 : Nat) from rfl, show (-1074 : Int) = -(1074 : Nat) from rfl,
        zpow_neg, zpow_neg, zpow_natCast, zpow_natCast]
      refine inv_strictAnti₀ (by positivity) ?_
      exact_mod_cast two_pow_lt_ten_pow.1
    exact absurd (hleast.trans_lt hsmall) hgap.not_gt
  · by_contra hlt
    have hexp : 309 ≤ magnitude num den := by omega
    have hlarge : (10 : ℚ) ^ (309 : Int) ≤ m * 2 ^ e :=
      (zpow_le_zpow_right₀ (by norm_num) hexp).trans hlow
    have hmost : (m * 2 ^ e : ℚ) < 2 ^ 53 * 2 ^ (971 : Int) := by
      calc (m * 2 ^ e : ℚ) < 2 ^ 53 * 2 ^ e := by gcongr
        _ ≤ 2 ^ 53 * 2 ^ (971 : Int) :=
          mul_le_mul_of_nonneg_left (zpow_le_zpow_right₀ (by norm_num) he) (by positivity)
    have hgap : (2 : ℚ) ^ 53 * 2 ^ (971 : Int) < 10 ^ (309 : Int) := by
      rw [show (971 : Int) = (971 : Nat) from rfl, show (309 : Int) = (309 : Nat) from rfl,
        zpow_natCast, zpow_natCast, ← pow_add]
      exact_mod_cast two_pow_lt_ten_pow.2
    exact absurd (hlarge.trans_lt hmost) hgap.not_gt

/-- **Seventeen digits are enough**: of the two decimals around a double, the nearer one reads back
    as it. -/
theorem readsBack_seventeen {bits : UInt64} {sign : Sign} {m : Nat} {e : Int} {hm : 0 < m}
    (h : UnpackedFloat.unpack Format.binary64 bits.toBitVec = .finite sign m e hm) (hnum : 0 < num)
    (hden : 0 < den) (hvalue : (num / den : ℚ) = m * 2 ^ e) :
    readsBack (bits &&& 0x7fffffffffffffff) (scaleDown num den (magnitude num den + 1 - (17 : Nat)))
        (magnitude num den + 1 - (17 : Nat)) = true ∨
      readsBack (bits &&& 0x7fffffffffffffff)
        (scaleDown num den (magnitude num den + 1 - (17 : Nat)) + 1)
        (magnitude num den + 1 - (17 : Nat)) = true := by
  obtain ⟨hcanonical, he, -⟩ := finite_of_unpack h
  obtain ⟨hmin, hmax⟩ := magnitude_range hcanonical he hnum hden hvalue
  obtain ⟨hten, -⟩ := magnitude_bounds hnum hden
  obtain ⟨hlow, hhigh⟩ := @scaleDown_bounds num den hden (magnitude num den + 1 - (17 : Nat))
  have hexp : magnitude num den = magnitude num den + 1 - (17 : Nat) + 16 := by omega
  generalize magnitude num den + 1 - (17 : Nat) = s at hlow hhigh hexp ⊢
  generalize scaleDown num den s = q at hlow hhigh ⊢
  rw [hvalue] at hten hlow hhigh
  have hscale : (0 : ℚ) < 10 ^ s := by positivity
  rw [hexp, zpow_add₀ (by norm_num)] at hten
  have hlarge : (10 : ℚ) ^ s * 10 ^ 16 ≤ m * 2 ^ e := hten
  -- The candidates are a unit of the seventeenth digit apart, so one is within half of it.
  by_cases hnearer : (m * 2 ^ e : ℚ) - q * 10 ^ s ≤ 10 ^ s / 2
  · left
    have hq : 0 < q := by
      rw [Nat.pos_iff_ne_zero]
      rintro rfl
      simp only [Nat.cast_zero, zero_mul] at hnearer
      linarith
    refine readsBack_near h hq (by omega) (by omega) ?_
    rw [abs_sub_comm, abs_of_nonneg (by linarith)]
    linarith
  · right
    refine readsBack_near h (Nat.succ_pos q) (by omega) (by omega) ?_
    push_cast
    rw [abs_of_pos (by linarith)]
    linarith

end

/-- A decimal number that reads back as the double, of a size that keeps every layout of its digits in
    range. -/
structure Reads (bits : UInt64) (q : Nat) (s : Int) : Prop where
  pos : 0 < q
  low : -2048 ≤ s
  small : (q * 10 ^ s : ℚ) < 10 ^ (310 : Int)
  reads : readsBack bits q s = true

theorem scale_lt {q : Nat} {s : Int} (hq : 0 < q) (h : (q * 10 ^ s : ℚ) < 10 ^ (310 : Int)) :
    s < 310 := by
  have hone : (1 : ℚ) ≤ q := by exact_mod_cast hq
  refine (zpow_lt_zpow_iff_right₀ (by norm_num : (1 : ℚ) < 10)).mp (lt_of_le_of_lt ?_ h)
  exact le_mul_of_one_le_left (by positivity) hone

/-- The digits may be laid out in any way that keeps the number. -/
theorem Reads.congr {bits : UInt64} {q q' : Nat} {s s' : Int} (h : Reads bits q s)
    (hlow : -2048 ≤ s') (hvalue : (q' * 10 ^ s' : ℚ) = q * 10 ^ s) : Reads bits q' s' := by
  have hq : (0 : ℚ) < q := by exact_mod_cast h.pos
  have hpos : 0 < q' := by
    have : (0 : ℚ) < q' * 10 ^ s' := by
      rw [hvalue]
      positivity
    exact_mod_cast pos_of_mul_pos_left this (by positivity)
  have hsmall : (q' * 10 ^ s' : ℚ) < 10 ^ (310 : Int) := hvalue ▸ h.small
  have hhigh := scale_lt h.pos h.small
  have hhigh' := scale_lt hpos hsmall
  refine ⟨hpos, hlow, hsmall, ?_⟩
  have hround : UnpackedFloat.ofScientific Format.binary64 q' s' =
      UnpackedFloat.ofScientific Format.binary64 q s := by
    rw [ofScientific_eq hpos (by omega) hlow, ofScientific_eq h.pos (by omega) h.low, hvalue]
  have hreads := h.reads
  rw [readsBack, Float.Model.ofScientific] at hreads ⊢
  rw [hround]
  exact hreads

/-- **The shortest digits read back as the double.** -/
theorem shortest_reads {bits : UInt64} {sign : Sign} {m : Nat} {e : Int} {hm : 0 < m}
    (h : UnpackedFloat.unpack Format.binary64 bits.toBitVec = .finite sign m e hm) :
    ∃ q s, Reads (bits &&& 0x7fffffffffffffff) q s ∧
      shortest (bits &&& 0x7fffffffffffffff) m e = trimZeros q s := by
  have hfinite := finite_of_unpack h
  obtain ⟨num, den, hnum, hden, hvalue, hsplit⟩ : ∃ num den : Nat, 0 < num ∧ 0 < den ∧
      (num / den : ℚ) = m * 2 ^ e ∧
      (if 0 ≤ e then (m * 2 ^ e.toNat, 1) else (m, 2 ^ (-e).toNat)) = (num, den) := by
    split
    · next he =>
        obtain ⟨k, rfl⟩ := Int.eq_ofNat_of_zero_le he
        exact ⟨_, _, by positivity, one_pos, by simp, rfl⟩
    · next he =>
        obtain ⟨k, rfl⟩ : ∃ k : Nat, e = -k := ⟨(-e).toNat, by omega⟩
        refine ⟨_, _, hm, by positivity, ?_, rfl⟩
        simp only [neg_neg, Int.toNat_natCast, Nat.cast_pow, Nat.cast_ofNat]
        rw [zpow_neg, zpow_natCast, div_eq_mul_inv]
  obtain ⟨hmin, hmax⟩ := magnitude_range hfinite.canonical hfinite.le hnum hden hvalue
  obtain ⟨hten, hnext⟩ := magnitude_bounds hnum hden
  obtain ⟨hreads, hlo, hhi⟩ := @shortestFrom_readsBack _ _ _ _ 17
    (readsBack_seventeen h hnum hden hvalue) 17 1 (by decide) (by decide)
  have hcandidate := @shortestFrom_candidate num den (bits &&& 0x7fffffffffffffff)
    (magnitude num den) 17 1
  have heq : shortest (bits &&& 0x7fffffffffffffff) m e =
      trimZeros
        (shortestFrom (bits &&& 0x7fffffffffffffff) num den (magnitude num den) 17 1).1
        (shortestFrom (bits &&& 0x7fffffffffffffff) num den (magnitude num den) 17 1).2 := by
    unfold shortest
    rw [hsplit]
  refine ⟨_, _, ?_, heq⟩
  obtain ⟨found, hfound⟩ : ∃ found, shortestFrom (bits &&& 0x7fffffffffffffff) num den
      (magnitude num den) 17 1 = found := ⟨_, rfl⟩
  rw [hfound] at hreads hlo hhi hcandidate ⊢
  obtain ⟨q, s⟩ := found
  push_cast at hlo hhi
  obtain ⟨hbelow, habove⟩ := @scaleDown_bounds num den hden s
  have hscale : (0 : ℚ) < 10 ^ s := by positivity
  have hunit : (10 : ℚ) ^ s ≤ num / den := by
    exact (zpow_le_zpow_right₀ (by norm_num) (by omega)).trans hten
  have hmost : (num / den : ℚ) < 10 ^ (309 : Int) :=
    hnext.trans_le (zpow_le_zpow_right₀ (by norm_num) (by omega))
  have hcand : q = scaleDown num den s ∨ q = scaleDown num den s + 1 := hcandidate
  refine ⟨?_, by omega, ?_, hreads⟩
  · rcases hcand with rfl | rfl
    · exact scaleDown_pos hnum hden (by omega)
    · exact Nat.succ_pos _
  · have hle : (q : ℚ) * 10 ^ s ≤ num / den + num / den := by
      rcases hcand with rfl | rfl
      · linarith
      · push_cast
        linarith
    calc (q * 10 ^ s : ℚ) ≤ num / den + num / den := hle
      _ < 10 ^ (309 : Int) + 10 ^ (309 : Int) := add_lt_add hmost hmost
      _ = 10 ^ (309 : Int) * 2 := (mul_two _).symm
      _ ≤ 10 ^ (309 : Int) * 10 := mul_le_mul_of_nonneg_left (by norm_num) (by positivity)
      _ = 10 ^ (310 : Int) := (zpow_add_one₀ (by norm_num) 309).symm

end FloatText
