import PromScrape.Implementation.Model

set_option autoImplicit false

/-! # Varints: the shifting loop, the closed length formula, zigzag

`putVarint` is the library's `ProtoWire.varint` and `varintLen` its length, for every `u64`: both
sides are reduced to the position of the value's top bit, `Nat.log2`. `zigzag`'s shift-and-xor is
`ProtoWire.zigzagNat`. -/

namespace PromScrape

open ProtoWire (varint varintDigits zigzagNat)

/-! ## The loop -/

theorem shiftRight7_toNat (v : UInt64) : (v >>> 7).toNat = v.toNat / 128 := by
  rw [UInt64.toNat_shiftRight]
  simp [Nat.shiftRight_eq_div_pow]

theorem low7_toNat (v : UInt64) : (v &&& 0x7f).toUInt8.toNat = v.toNat % 128 := by
  have hand : (v &&& 0x7f).toNat = v.toNat % 2 ^ 7 := by
    rw [UInt64.toNat_and, ← Nat.and_two_pow_sub_one_eq_mod]
    rfl
  rw [UInt64.toNat_toUInt8, hand]
  omega

/-- The continuation byte: the low seven bits with the top bit set. -/
theorem continuation_byte (v : UInt64) :
    (v &&& 0x7f).toUInt8 ||| 0x80 = UInt8.ofNat (v.toNat % 128 + 128) := by
  apply UInt8.toNat_inj.mp
  have hbit : (0x80 : UInt8).toNat = 2 ^ 7 * 1 := rfl
  rw [UInt8.toNat_or, low7_toNat, hbit, Nat.or_comm,
    ← Nat.two_pow_add_eq_or_of_lt (show v.toNat % 128 < 2 ^ 7 by omega), UInt8.toNat_ofNat']
  omega

theorem ge_0x80_iff (v : UInt64) : v ≥ 0x80 ↔ ¬ v.toNat < 128 := by
  rw [ge_iff_le, UInt64.le_iff_toNat_le]
  exact Nat.not_lt.symm

theorem putVarintLoop_eq_digits (rounds : Nat) (v : UInt64) :
    putVarintLoop rounds v = varintDigits rounds v.toNat := by
  induction rounds generalizing v with
  | zero =>
      rw [putVarintLoop, varintDigits]
      congr 1
  | succ rounds ih =>
      rw [putVarintLoop, varintDigits]
      by_cases hlt : v.toNat < 128
      · rw [if_neg (by rw [ge_0x80_iff]; exact not_not.mpr hlt), if_pos hlt]
        congr 1
      · rw [if_pos ((ge_0x80_iff v).mpr hlt), if_neg hlt, continuation_byte, ih, shiftRight7_toNat]

/-- The loop writes the library's varint. -/
theorem putVarint_eq_varint (v : UInt64) : putVarint v = varint v := putVarintLoop_eq_digits 9 v

/-- Extra rounds change nothing once the value fits the digits left to write. -/
theorem varintDigits_succ (k n : Nat) (hn : n < 2 ^ (7 * (k + 1))) :
    varintDigits (k + 1) n = varintDigits k n := by
  induction k generalizing n with
  | zero =>
      have hlt : n < 128 := by simpa using hn
      simp [varintDigits, hlt]
  | succ k ih =>
      conv_lhs => rw [varintDigits, ih _ (ProtoWire.div_128_lt hn)]
      conv_rhs => rw [varintDigits]

/-- The source's loop equation: no `u64` runs out of rounds. -/
theorem putVarint_step (v : UInt64) :
    putVarint v =
      if v ≥ 0x80 then ((v &&& 0x7f).toUInt8 ||| 0x80) :: putVarint (v >>> 7) else [v.toUInt8] := by
  rw [putVarint, putVarintLoop]
  have hshift := shiftRight7_toNat v
  have hlt := v.toNat_lt
  have hrounds : putVarintLoop 8 (v >>> 7) = putVarint (v >>> 7) := by
    rw [putVarint, putVarintLoop_eq_digits, putVarintLoop_eq_digits, varintDigits_succ 8 _ (by omega)]
  rw [hrounds]

/-! ## The closed length formula -/

theorem log2_lt_of_lt {n k : Nat} (hk : 0 < k) (hn : n < 2 ^ k) : n.log2 < k := by
  by_cases h0 : n = 0
  · rw [h0, Nat.log2_zero]
    exact hk
  · exact (Nat.log2_lt h0).mpr hn

theorem log2_toNat_le (v : UInt64) : v.toNat.log2 ≤ 63 :=
  Nat.lt_succ_iff.mp (log2_lt_of_lt (by decide) v.toNat_lt)

theorem varintDigits_length (k n : Nat) (hn : n < 2 ^ (7 * (k + 1))) :
    (varintDigits k n).length = n.log2 / 7 + 1 := by
  induction k generalizing n with
  | zero =>
      have hlog : n.log2 < 7 := log2_lt_of_lt (by decide) (by simpa using hn)
      simp [varintDigits, Nat.div_eq_of_lt hlog]
  | succ k ih =>
      rw [varintDigits]
      split
      · next hlt =>
          have hlog : n.log2 < 7 := log2_lt_of_lt (by decide) hlt
          simp [Nat.div_eq_of_lt hlog]
      · next hge =>
          have hn0 : n ≠ 0 := by omega
          have hq0 : n / 128 ≠ 0 := by omega
          have hlog : n.log2 = (n / 128).log2 + 7 := by
            have hlo := Nat.log2_self_le hq0
            have hhi := (Nat.log2_lt hq0).mp (Nat.lt_succ_self (n / 128).log2)
            refine (Nat.log2_eq_iff hn0).mpr ⟨?_, ?_⟩
            · rw [Nat.pow_add]; omega
            · rw [show (n / 128).log2 + 7 + 1 = (n / 128).log2.succ + 7 by omega, Nat.pow_add]; omega
          rw [List.length_cons, ih _ (ProtoWire.div_128_lt hn), hlog]
          omega

/-- `log2` ignores the lowest bit, which the formula sets to avoid `leading_zeros` of zero. -/
theorem log2_or_one (n : Nat) : (n ||| 1).log2 = n.log2 := by
  by_cases h0 : n = 0
  · subst h0; rfl
  · have hor : n ||| 1 ≠ 0 := by
      have hle : n ≤ n ||| 1 := Nat.left_le_or
      omega
    refine (Nat.log2_eq_iff hor).mpr ⟨?_, ?_⟩
    · exact le_trans (Nat.log2_self_le h0) Nat.left_le_or
    · exact Nat.or_lt_two_pow ((Nat.log2_lt h0).mp (Nat.lt_succ_self _))
        (Nat.one_lt_two_pow (Nat.succ_ne_zero _))

/-- The branch-free formula, on the top bit's position. -/
theorem lenFormula (l : Nat) (hl : l ≤ 63) : ((63 - l) ^^^ 63) * 9 + 73 = 9 * l + 73 := by
  have hall : ∀ l : Fin 64, ((63 - l.val) ^^^ 63) * 9 + 73 = 9 * l.val + 73 := by decide
  exact hall ⟨l, by omega⟩

theorem varintLen_eq (v : UInt64) : varintLen v = v.toNat.log2 / 7 + 1 := by
  have hor : (v ||| 1).toNat = v.toNat ||| 1 := by rw [UInt64.toNat_or]; rfl
  have hne : v ||| 1 ≠ 0 := by
    intro h
    have hz := congrArg UInt64.toNat h
    rw [hor] at hz
    have hle : 1 ≤ v.toNat ||| 1 := Nat.right_le_or
    simp only [UInt64.toNat_zero] at hz
    omega
  have hlog := log2_toNat_le v
  rw [varintLen, leadingZeros, if_neg hne, hor, log2_or_one, lenFormula _ hlog]
  omega

/-- **The branch-free length is the number of bytes the loop writes.** -/
theorem putVarint_length (v : UInt64) : (putVarint v).length = varintLen v := by
  have hlt := v.toNat_lt
  rw [putVarint_eq_varint, varint, varintDigits_length 9 _ (by omega), varintLen_eq]

theorem varintLen_pos (v : UInt64) : 0 < varintLen v := by rw [varintLen_eq]; omega

theorem varintLen_le (v : UInt64) : varintLen v ≤ 10 := by
  have hlog := log2_toNat_le v
  rw [varintLen_eq]
  omega

/-- **The closed form, the loop and a standard reader agree on every `u64`.** -/
theorem varintLen_putVarint_readVarint (v : UInt64) :
    varintLen v = (putVarint v).length ∧ 1 ≤ varintLen v ∧ varintLen v ≤ 10 ∧
      ∀ rest, ProtoWire.readVarint (putVarint v ++ rest) = some (v, rest) := by
  refine ⟨(putVarint_length v).symm, varintLen_pos v, varintLen_le v, ?_⟩
  intro rest
  rw [putVarint_eq_varint]
  exact ProtoWire.readVarint_varint v rest

/-! ## Zigzag -/

/-- The arithmetic shift by 63 is the sign: 0 or -1. -/
theorem shiftRight63 (z : Int64) : z >>> 63 = if 0 ≤ z.toInt then 0 else -1 := by
  have hle := z.le_toInt
  have hlt := z.toInt_lt
  have hshift : (z >>> 63).toInt = z.toInt / 2 ^ 63 := by
    rw [← Int64.toInt_toBitVec, Int64.toBitVec_shiftRight, BitVec.toInt_sshiftRight',
      Int.shiftRight_eq_div_pow, Int64.toInt_toBitVec]
    rfl
  apply Int64.toInt_inj.mp
  rw [hshift]
  split
  · rw [Int64.toInt_zero]; omega
  · have hneg : (-1 : Int64).toInt = -1 := rfl
    omega

/-- The bit pattern of a signed 64-bit integer: two's complement. -/
theorem int64Bits_toNat (z : Int64) :
    ((int64Bits z).toNat : Int) = if 0 ≤ z.toInt then z.toInt else z.toInt + 2 ^ 64 := by
  have hbits : (int64Bits z).toNat = z.toBitVec.toNat := rfl
  have hlt := z.toBitVec.isLt
  rw [hbits, ← Int64.toInt_toBitVec, BitVec.toInt_eq_toNat_cond]
  split <;> split <;> omega

theorem shiftLeft1_toNat (v : UInt64) : (v <<< 1).toNat = 2 * v.toNat % 2 ^ 64 := by
  rw [UInt64.toNat_shiftLeft]
  simp [Nat.shiftLeft_eq, Nat.mul_comm]

/-- **The shift-and-xor zigzag is the arithmetic one.** -/
theorem zigzag_eq (z : Int64) : zigzag z = UInt64.ofNat (zigzagNat z.toInt) := by
  have hle := z.le_toInt
  have hlt := z.toInt_lt
  have hbits := int64Bits_toNat z
  have hdouble : (int64Bits (z <<< 1)).toNat = 2 * (int64Bits z).toNat % 2 ^ 64 :=
    shiftLeft1_toNat z.toUInt64
  have hfit : (UInt64.ofNat (zigzagNat z.toInt)).toNat = zigzagNat z.toInt := by
    rw [UInt64.toNat_ofNat']
    exact Nat.mod_eq_of_lt (by unfold zigzagNat; split <;> omega)
  apply UInt64.toNat_inj.mp
  rw [hfit, zigzag, shiftRight63]
  split
  · next hnonneg =>
      rw [if_pos hnonneg] at hbits
      rw [Int64.xor_zero, hdouble, zigzagNat, if_pos hnonneg]
      omega
  · next hneg =>
      rw [if_neg hneg] at hbits
      have hnot : (int64Bits (~~~(z <<< 1))).toNat = 2 ^ 64 - 1 - (int64Bits (z <<< 1)).toNat := by
        rw [int64Bits, Int64.toUInt64_not, UInt64.toNat_not]
        rfl
      rw [Int64.xor_neg_one, hnot, hdouble, zigzagNat, if_neg hneg]
      omega

end PromScrape
