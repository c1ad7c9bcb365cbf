import Mathlib

set_option autoImplicit false

/-! # 64-bit words modulo powers of two

Xor with a word and multiplication by an odd word act on the low `k` bits alone and lose none of
them. A mixing step built from the two is therefore injective, at every width. -/

namespace Word64

/-- Xor with a fixed number keeps the low bits apart. -/
theorem xor_mod_two_pow_inj (x a b k : Nat) :
    (x ^^^ a) % 2 ^ k = (x ^^^ b) % 2 ^ k ↔ a % 2 ^ k = b % 2 ^ k := by
  rw [Nat.xor_mod_two_pow, Nat.xor_mod_two_pow]
  exact Nat.xor_right_inj

/-- An odd factor is a unit modulo a power of two. -/
theorem mul_mod_two_pow_inj {m : Nat} (hodd : Odd m) (a b k : Nat) :
    a * m % 2 ^ k = b * m % 2 ^ k ↔ a % 2 ^ k = b % 2 ^ k := by
  have hcop : Nat.gcd (2 ^ k) m = 1 := Nat.Coprime.pow_left k hodd.coprime_two_left
  constructor
  · intro h
    exact Nat.ModEq.cancel_right_of_coprime hcop h
  · intro h
    exact Nat.ModEq.mul_right m h

/-- The low bits of a wrapping product are those of the exact one. -/
theorem toNat_mul_mod (a b : UInt64) {k : Nat} (hk : k ≤ 64) :
    (a * b).toNat % 2 ^ k = a.toNat * b.toNat % 2 ^ k := by
  rw [UInt64.toNat_mul, Nat.mod_mod_of_dvd _ (Nat.pow_dvd_pow 2 hk)]

/-- **The mixing step `(x ^ w) * m`, `m` odd, is injective in `w` at every width.** -/
theorem xorMul_mod_inj (x a b : UInt64) {m : UInt64} (hodd : Odd m.toNat) {k : Nat} (hk : k ≤ 64) :
    ((x ^^^ a) * m).toNat % 2 ^ k = ((x ^^^ b) * m).toNat % 2 ^ k ↔
      a.toNat % 2 ^ k = b.toNat % 2 ^ k := by
  rw [toNat_mul_mod _ _ hk, toNat_mul_mod _ _ hk, mul_mod_two_pow_inj hodd, UInt64.toNat_xor,
    UInt64.toNat_xor, xor_mod_two_pow_inj]

/-- All 64 bits: equality of words. -/
theorem toNat_mod_inj (a b : UInt64) : a.toNat % 2 ^ 64 = b.toNat % 2 ^ 64 ↔ a = b := by
  rw [Nat.mod_eq_of_lt a.toNat_lt, Nat.mod_eq_of_lt b.toNat_lt, UInt64.toNat_inj]

theorem mul_odd_inj {m : UInt64} (hodd : Odd m.toNat) (a b : UInt64) : a * m = b * m ↔ a = b := by
  rw [← toNat_mod_inj (a * m), ← toNat_mod_inj a, toNat_mul_mod _ _ (Nat.le_refl 64),
    toNat_mul_mod _ _ (Nat.le_refl 64), mul_mod_two_pow_inj hodd]

theorem div_two_pow_59_lt (x : UInt64) : x.toNat / 2 ^ 59 < 2 ^ 5 :=
  Nat.div_lt_of_lt_mul x.toNat_lt

/-- A rotation by five puts the low 59 bits above the high five. -/
theorem rotateLeft5_toNat (x : UInt64) :
    ((x <<< 5) ||| (x >>> 59)).toNat = 2 ^ 5 * (x.toNat % 2 ^ 59) + x.toNat / 2 ^ 59 := by
  have hlow : x.toNat * 2 ^ 5 % 2 ^ 64 = 2 ^ 5 * (x.toNat % 2 ^ 59) := by omega
  have h5 : (5 : UInt64).toNat % 64 = 5 := rfl
  have h59 : (59 : UInt64).toNat % 64 = 59 := rfl
  rw [UInt64.toNat_or, UInt64.toNat_shiftLeft, UInt64.toNat_shiftRight, h5, h59, Nat.shiftLeft_eq,
    Nat.shiftRight_eq_div_pow, hlow, ← Nat.two_pow_add_eq_or_of_lt (div_two_pow_59_lt x)]

theorem rotateLeft5_mod (x : UInt64) :
    ((x <<< 5) ||| (x >>> 59)).toNat % 2 ^ 5 = x.toNat / 2 ^ 59 := by
  rw [rotateLeft5_toNat, Nat.mul_add_mod, Nat.mod_eq_of_lt (div_two_pow_59_lt x)]

theorem rotateLeft5_div (x : UInt64) :
    ((x <<< 5) ||| (x >>> 59)).toNat / 2 ^ 5 = x.toNat % 2 ^ 59 := by
  rw [rotateLeft5_toNat, Nat.mul_add_div (by norm_num), Nat.div_eq_of_lt (div_two_pow_59_lt x),
    Nat.add_zero]

/-- Two xors agree when their low and their high parts do. -/
theorem xor_eq_xor_iff (a b c d k : Nat) :
    a ^^^ b = c ^^^ d ↔
      a % 2 ^ k ^^^ b % 2 ^ k = c % 2 ^ k ^^^ d % 2 ^ k ∧
        a / 2 ^ k ^^^ b / 2 ^ k = c / 2 ^ k ^^^ d / 2 ^ k := by
  rw [← Nat.xor_mod_two_pow, ← Nat.xor_mod_two_pow, ← Nat.xor_div_two_pow, ← Nat.xor_div_two_pow]
  constructor
  · intro h
    rw [h]
    exact ⟨rfl, rfl⟩
  · rintro ⟨hmod, hdiv⟩
    rw [← Nat.div_add_mod (a ^^^ b) (2 ^ k), ← Nat.div_add_mod (c ^^^ d) (2 ^ k), hmod, hdiv]

/-- Equal xors, regrouped. -/
theorem xor_regroup {a b c d : Nat} (h : a ^^^ b = c ^^^ d) : a ^^^ c = b ^^^ d := by
  calc a ^^^ c = (a ^^^ b) ^^^ (b ^^^ c) := by rw [Nat.xor_assoc, Nat.xor_xor_cancel_left]
    _ = (c ^^^ d) ^^^ (b ^^^ c) := by rw [h]
    _ = b ^^^ d := by
      rw [Nat.xor_comm b c, Nat.xor_comm c d, Nat.xor_assoc, Nat.xor_xor_cancel_left, Nat.xor_comm]

end Word64
