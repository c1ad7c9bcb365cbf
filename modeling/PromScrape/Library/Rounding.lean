import Mathlib

set_option autoImplicit false

/-! # Correct rounding in the model of binary64

Lean's logical model of floating-point numbers rounds in steps: shift the mantissa, remember a round bit
and a sticky bit, round, shift again. Here the result is described as a function of the rational number
that is rounded: it depends on nothing else, and a number that is closer to a double than half of the
gap to its neighbours is rounded to that double. -/

namespace Rounding

open Float.Model Float.Model.UnpackedFloat

/-! ## Mantissas and residual bits -/

/-- The whole part of a rational number, and the two bits of the rest that rounding looks at. -/
def split (y : ℚ) : ExtendedMantissa where
  mantissa := ⌊y⌋₊
  roundBit := decide (1 / 2 ≤ y - ⌊y⌋₊)
  stickyBit := decide (y - ⌊y⌋₊ ≠ 0 ∧ y - ⌊y⌋₊ ≠ 1 / 2)

theorem split_eq {y f : ℚ} {n : Nat} (hy : y = n + f) (h0 : 0 ≤ f) (h1 : f < 1) :
    split y = ⟨n, decide (1 / 2 ≤ f), decide (f ≠ 0 ∧ f ≠ 1 / 2)⟩ := by
  have hfloor : ⌊y⌋₊ = n := by
    rw [Nat.floor_eq_iff (by rw [hy]; positivity), hy]
    constructor <;> linarith
  have hrest : y - n = f := by rw [hy]; ring
  rw [split, hfloor, hrest]

/-- A number that is not negative, in two parts. -/
theorem exists_parts {y : ℚ} (hy : 0 ≤ y) : ∃ (n : Nat) (f : ℚ), y = n + f ∧ 0 ≤ f ∧ f < 1 := by
  refine ⟨⌊y⌋₊, y - ⌊y⌋₊, by ring, ?_, ?_⟩
  · linarith [Nat.floor_le hy]
  · linarith [Nat.lt_floor_add_one y]

theorem shiftRightOne_split {y : ℚ} (hy : 0 ≤ y) : (split y).shiftRightOne = split (y / 2) := by
  obtain ⟨n, f, hparts, h0, h1⟩ := exists_parts hy
  have hmod : n % 2 = 0 ∨ n % 2 = 1 := by omega
  have hdiv : (n : ℚ) = 2 * (n / 2 : Nat) + (n % 2 : Nat) := by
    exact_mod_cast (Nat.div_add_mod n 2).symm
  rw [split_eq hparts h0 h1]
  rcases hmod with heven | hodd
  · rw [heven] at hdiv
    rw [split_eq (n := n / 2) (f := f / 2) (by rw [hparts, hdiv]; push_cast; ring) (by linarith)
      (by linarith)]
    simp only [ExtendedMantissa.shiftRightOne, heven, ExtendedMantissa.mk.injEq, true_and]
    constructor
    · refine (decide_eq_false ?_).symm
      linarith
    · rw [← Bool.decide_or, decide_eq_decide]
      constructor
      · rintro (h | h)
        · exact ⟨by linarith, by intro h'; linarith⟩
        · exact ⟨fun h' => h.1 (by linarith), by intro h'; linarith⟩
      · rintro ⟨h, -⟩
        by_cases hhalf : f = 1 / 2
        · exact .inl (by linarith)
        · exact .inr ⟨fun h' => h (by linarith), hhalf⟩
  · rw [hodd] at hdiv
    rw [split_eq (n := n / 2) (f := (1 + f) / 2) (by rw [hparts, hdiv]; push_cast; ring)
      (by linarith) (by linarith)]
    simp only [ExtendedMantissa.shiftRightOne, hodd, ExtendedMantissa.mk.injEq, true_and]
    constructor
    · refine (decide_eq_true ?_).symm
      linarith
    · rw [← Bool.decide_or, decide_eq_decide]
      constructor
      · rintro (h | h)
        · exact ⟨by linarith, by intro h'; linarith⟩
        · exact ⟨by intro h'; linarith, fun h' => h.1 (by linarith)⟩
      · rintro ⟨-, h⟩
        by_cases hhalf : f = 1 / 2
        · exact .inl (by linarith)
        · exact .inr ⟨fun h' => h (by rw [h']; ring), hhalf⟩

theorem shiftRight_split {y : ℚ} (hy : 0 ≤ y) (k : Nat) : split y >>> k = split (y / 2 ^ k) := by
  induction k with
  | zero => simp [HShiftRight.hShiftRight, Nat.repeat]
  | succ k ih =>
      have hstep : split y >>> (k + 1) = (split y >>> k).shiftRightOne := rfl
      rw [hstep, ih, shiftRightOne_split (by positivity), div_div, ← pow_succ]

/-- **A number near an integer is rounded to it.** -/
theorem roundedMantissa_split {y : ℚ} (hy : 0 ≤ y) {k : Nat} (h : |y - k| < 1 / 2) :
    (split y).roundedMantissa = k := by
  rw [abs_lt] at h
  by_cases hle : (k : ℚ) ≤ y
  · rw [split_eq (n := k) (f := y - k) (by ring) (by linarith) (by linarith)]
    have hround : decide (1 / 2 ≤ y - k) = false := decide_eq_false (by linarith)
    simp only [ExtendedMantissa.roundedMantissa, hround]
    by_cases hexact : y - k = 0
    · simp [hexact, ExtendedMantissa.accuracy, Accuracy.roundToNearestEven]
    · have hsticky : decide (y - k ≠ 0 ∧ y - k ≠ 1 / 2) = true :=
        decide_eq_true ⟨hexact, by intro h'; linarith⟩
      rw [hsticky]
      rfl
  · obtain ⟨n, rfl⟩ : ∃ n, k = n + 1 := by
      cases k with
      | zero => exact absurd (by simpa using hy) hle
      | succ n => exact ⟨n, rfl⟩
    push_cast at h hle
    rw [split_eq (n := n) (f := y - n) (by ring) (by linarith) (by linarith)]
    have hround : decide (1 / 2 ≤ y - n) = true := decide_eq_true (by linarith)
    have hsticky : decide (y - n ≠ 0 ∧ y - n ≠ 1 / 2) = true :=
      decide_eq_true ⟨by intro h'; linarith, by intro h'; linarith⟩
    simp only [ExtendedMantissa.roundedMantissa, hround, hsticky]
    rfl

/-! ## Initial accuracies -/

theorem ofMantissaAndAccuracy_exact (m : Nat) :
    ExtendedMantissa.ofMantissaAndAccuracy m .exact = split m := by
  rw [split_eq (n := m) (f := 0) (by ring) le_rfl one_pos]
  simp [ExtendedMantissa.ofMantissaAndAccuracy]

theorem ofMantissaAndAccuracy_div (a : Nat) {b : Nat} (hb : 0 < b) :
    ExtendedMantissa.ofMantissaAndAccuracy (a / b) (accuracyOfFraction (a % b) b) =
      split (a / b) := by
  have hbq : (0 : ℚ) < b := by exact_mod_cast hb
  have hlt : ((a % b : Nat) : ℚ) < b := by exact_mod_cast Nat.mod_lt a hb
  have hparts : (a / b : ℚ) = (a / b : Nat) + (a % b : Nat) / b := by
    have h : (a : ℚ) = b * (a / b : Nat) + (a % b : Nat) := by
      exact_mod_cast (Nat.div_add_mod a b).symm
    conv_lhs => rw [h]
    field_simp
  rw [split_eq hparts (by positivity) ((div_lt_one hbq).mpr hlt), accuracyOfFraction]
  have hzero : ((a % b : Nat) / b : ℚ) = 0 ↔ a % b = 0 := by
    rw [div_eq_zero_iff, or_iff_left hbq.ne', Nat.cast_eq_zero]
  have hhalf : ((a % b : Nat) / b : ℚ) = 1 / 2 ↔ 2 * (a % b) = b := by
    rw [div_eq_div_iff hbq.ne' two_ne_zero]
    constructor
    · intro h
      have : (2 * (a % b : Nat) : ℚ) = b := by linarith
      exact_mod_cast this
    · intro h
      have : (2 * (a % b : Nat) : ℚ) = b := by exact_mod_cast h
      linarith
  have hle : (1 / 2 : ℚ) ≤ (a % b : Nat) / b ↔ b ≤ 2 * (a % b) := by
    rw [div_le_div_iff₀ two_pos hbq]
    constructor
    · intro h
      have : (b : ℚ) ≤ 2 * (a % b : Nat) := by linarith
      exact_mod_cast this
    · intro h
      have : (b : ℚ) ≤ 2 * (a % b : Nat) := by exact_mod_cast h
      linarith
  simp only [ne_eq, hzero, hhalf, hle]
  split
  · next hmod => simp [ExtendedMantissa.ofMantissaAndAccuracy, hmod, hb.ne']
  · next hmod =>
      rcases lt_trichotomy (2 * (a % b)) b with h | h | h
      · rw [Nat.compare_eq_lt.mpr h]
        simp [ExtendedMantissa.ofMantissaAndAccuracy, hmod, h.ne, h]
      · rw [Nat.compare_eq_eq.mpr h]
        simp [ExtendedMantissa.ofMantissaAndAccuracy, h, hmod]
      · rw [Nat.compare_eq_gt.mpr h]
        simp [ExtendedMantissa.ofMantissaAndAccuracy, hmod, h.ne', h.le]

/-! ## The exponent of a result -/

theorem targetExponent_eq (t : Int) : Format.binary64.targetExponent t = max (t - 53) (-1074) := rfl

/-- The exponent that a number is rounded to, unless rounding carries. -/
def target (x : ℚ) : Int := Format.binary64.targetExponent (Int.log 2 x + 1)

theorem target_eq (x : ℚ) : target x = max (Int.log 2 x - 52) (-1074) := by
  rw [target, targetExponent_eq]
  congr 1
  ring

theorem log_mul_zpow {y : ℚ} (hy : 1 ≤ y) (e : Int) :
    Int.log 2 (y * 2 ^ e) = (⌊y⌋₊.log2 : Int) + e := by
  have hpos : 0 < y := by linarith
  have hfloor : ⌊y⌋₊ ≠ 0 := (Nat.floor_pos.mpr hy).ne'
  have hlow : ((2 ^ ⌊y⌋₊.log2 : Nat) : ℚ) ≤ y :=
    (Nat.cast_le.mpr (Nat.log2_self_le hfloor)).trans (Nat.floor_le hpos.le)
  have hhigh : y < ((2 ^ (⌊y⌋₊.log2 + 1) : Nat) : ℚ) := by
    have hlt : ⌊y⌋₊ + 1 ≤ 2 ^ (⌊y⌋₊.log2 + 1) := Nat.lt_log2_self
    exact (Nat.lt_floor_add_one y).trans_le (by exact_mod_cast hlt)
  have htwo : (0 : ℚ) < 2 ^ e := by positivity
  have hxpos : 0 < y * 2 ^ e := by positivity
  refine le_antisymm (Int.lt_add_one_iff.mp ?_) ?_
  · rw [← Int.lt_zpow_iff_log_lt one_lt_two hxpos]
    calc y * 2 ^ e < ((2 ^ (⌊y⌋₊.log2 + 1) : Nat) : ℚ) * 2 ^ e := by gcongr
      _ = ((2 : Nat) : ℚ) ^ ((⌊y⌋₊.log2 : Int) + e + 1) := by
          push_cast
          rw [show (⌊y⌋₊.log2 : Int) + e + 1 = ((⌊y⌋₊.log2 + 1 : Nat) : Int) + e by push_cast; ring,
            zpow_add₀ two_ne_zero, zpow_natCast]
  · rw [← Int.zpow_le_iff_le_log one_lt_two hxpos]
    calc ((2 : Nat) : ℚ) ^ ((⌊y⌋₊.log2 : Int) + e)
        = ((2 ^ ⌊y⌋₊.log2 : Nat) : ℚ) * 2 ^ e := by
          push_cast
          rw [zpow_add₀ two_ne_zero, zpow_natCast]
      _ ≤ y * 2 ^ e := by gcongr

/-- The exponent computed from a mantissa is that of the number it approximates. -/
theorem targetExponent_floor {y : ℚ} (hy : 0 < y) {e : Int} (hle : e ≤ target (y * 2 ^ e)) :
    Format.binary64.targetExponent (totalExponent ⌊y⌋₊ e) = target (y * 2 ^ e) := by
  rw [target_eq] at hle ⊢
  rw [targetExponent_eq, totalExponent]
  by_cases hone : 1 ≤ y
  · rw [log_mul_zpow hone]
    congr 1
    ring
  · have hfloor : ⌊y⌋₊ = 0 := Nat.floor_eq_zero.mpr (by linarith)
    have hlog : Int.log 2 (y * 2 ^ e) < e := by
      rw [← Int.lt_zpow_iff_log_lt one_lt_two (by positivity)]
      calc y * 2 ^ e < 1 * 2 ^ e := by gcongr; linarith
        _ = ((2 : Nat) : ℚ) ^ e := by simp
    rw [hfloor]
    simp only [Nat.log2_zero, Nat.cast_zero]
    omega

/-! ## Rounding a rational number -/

/-- The double with a rounded mantissa, which may have one bit too many. -/
def carry (sign : Sign) (mantissa : Nat) (exponent : Int) : UnpackedFloat :=
  let shifted := shiftToTargetExponent Format.binary64 mantissa exponent .exact
  if h : shifted.1.mantissa = 0 then .zero sign
  else .finite sign shifted.1.mantissa shifted.2 (Nat.pos_of_ne_zero h)

/-- Rounding as a function of the number that is rounded. -/
def roundRat (sign : Sign) (x : ℚ) : UnpackedFloat :=
  carry sign (split (x / 2 ^ target x)).roundedMantissa (target x)

theorem mantissa_ofMantissaAndAccuracy (m : Nat) (accuracy : Accuracy) :
    (ExtendedMantissa.ofMantissaAndAccuracy m accuracy).mantissa = m := by
  cases accuracy with
  | exact => rfl
  | inexact order => cases order <;> rfl

/-- **The result depends on the number alone.** -/
theorem roundWithAccuracy_eq {m : Nat} {e : Int} {accuracy : Accuracy} {y : ℚ} (sign : Sign)
    (h : ExtendedMantissa.ofMantissaAndAccuracy m accuracy = split y) (hy : 0 < y)
    (hle : e ≤ target (y * 2 ^ e)) :
    roundWithAccuracy Format.binary64 sign m e accuracy = roundRat sign (y * 2 ^ e) := by
  have hm : m = ⌊y⌋₊ := by
    rw [← mantissa_ofMantissaAndAccuracy m accuracy, h]
    rfl
  have htarget : Format.binary64.targetExponent (totalExponent m e) = target (y * 2 ^ e) := by
    rw [hm, targetExponent_floor hy hle]
  obtain ⟨k, hk⟩ : ∃ k : Nat, target (y * 2 ^ e) = e + k := Int.le.dest hle |>.imp fun _ h => h.symm
  have hquot : y * 2 ^ e / 2 ^ (e + k : Int) = y / 2 ^ k := by
    rw [zpow_add₀ two_ne_zero, zpow_natCast]
    field_simp
  have hshift : shiftToTargetExponent Format.binary64 m e accuracy =
      (split (y * 2 ^ e / 2 ^ target (y * 2 ^ e)), target (y * 2 ^ e)) := by
    rw [shiftToTargetExponent, htarget, shiftToExponent, h, hk, hquot, ← shiftRight_split hy.le]
    simp
  rw [roundWithAccuracy, hshift, roundRat, carry]

/-! ## Decimal numbers -/

theorem le_target_of_one_le {x : ℚ} (hx : 1 ≤ x) : (-52 : Int) ≤ target x := by
  have hlog : 0 ≤ Int.log 2 x := by
    rw [← Int.zpow_le_iff_le_log one_lt_two (by linarith)]
    simpa using hx
  rw [target_eq]
  omega

/-- A quotient has at least the exponent that its parts promise. -/
theorem le_target_div {a b : Nat} (ha : 0 < a) (hb : 0 < b) :
    Format.binary64.targetExponent (totalExponent a 0 - totalExponent b 0) ≤ target (a / b) := by
  have hbq : (0 : ℚ) < b := by exact_mod_cast hb
  have haq : (0 : ℚ) < a := by exact_mod_cast ha
  have hlow : ((2 ^ a.log2 : Nat) : ℚ) ≤ a := Nat.cast_le.mpr (Nat.log2_self_le ha.ne')
  have hhigh : (b : ℚ) < ((2 ^ (b.log2 + 1) : Nat) : ℚ) := Nat.cast_lt.mpr Nat.lt_log2_self
  have hlog : (a.log2 : Int) - (b.log2 + 1) ≤ Int.log 2 (a / b : ℚ) := by
    rw [← Int.zpow_le_iff_le_log one_lt_two (by positivity), le_div_iff₀ hbq]
    calc ((2 : Nat) : ℚ) ^ ((a.log2 : Int) - (b.log2 + 1)) * b
        ≤ ((2 : Nat) : ℚ) ^ ((a.log2 : Int) - (b.log2 + 1)) * ((2 ^ (b.log2 + 1) : Nat) : ℚ) := by
          gcongr
      _ = ((2 ^ a.log2 : Nat) : ℚ) := by
          push_cast
          rw [← zpow_natCast (2 : ℚ) (b.log2 + 1), ← zpow_add₀ two_ne_zero, ← zpow_natCast]
          congr 1
          push_cast
          ring
      _ ≤ a := hlow
  rw [targetExponent_eq, target_eq, totalExponent, totalExponent]
  omega

/-- **A decimal number is rounded as a number**: the same number written otherwise gives the same
    double. -/
theorem ofScientific_eq {m : Nat} (hm : 0 < m) {s : Int} (hhigh : s ≤ 2048) (hlow : -2048 ≤ s) :
    UnpackedFloat.ofScientific Format.binary64 m s = roundRat .positive (m * 10 ^ s) := by
  have hmq : (1 : ℚ) ≤ m := by exact_mod_cast hm
  unfold UnpackedFloat.ofScientific
  rw [dif_neg hm.ne', if_neg (by simpa using hhigh), if_neg (by simp; omega)]
  split
  · next hs =>
      obtain ⟨k, rfl⟩ := Int.eq_ofNat_of_zero_le hs
      have hvalue : ((m * 2 ^ 53 * 10 ^ k : Nat) : ℚ) * 2 ^ (-53 : Int) = m * 10 ^ (k : Int) := by
        push_cast
        rw [zpow_natCast, zpow_neg]
        norm_num
        ring
      have hone : (1 : ℚ) ≤ m * 10 ^ (k : Int) := by
        rw [zpow_natCast]
        exact one_le_mul_of_one_le_of_one_le hmq (one_le_pow₀ (by norm_num))
      have hround := roundWithAccuracy_eq .positive (ofMantissaAndAccuracy_exact (m * 2 ^ 53 * 10 ^ k))
        (by positivity) (e := -53) (by rw [hvalue]; linarith [le_target_of_one_le hone])
      rw [hvalue] at hround
      rw [← hround]
      have hbits : Format.binary64.mantissaBits = 53 := rfl
      have hsign : Sign.positive * Sign.positive = Sign.positive := rfl
      simp only [UnpackedFloat.mul, hbits, hsign, Nat.shiftLeft_eq, Int.toNat_natCast,
        Nat.cast_ofNat, add_zero]
  · next hs =>
      obtain ⟨k, rfl⟩ : ∃ k : Nat, s = -k := ⟨(-s).toNat, by omega⟩
      have hpow : 0 < 10 ^ k := Nat.pow_pos (by decide)
      obtain ⟨j, hj⟩ : ∃ j : Nat, min 0 (Format.binary64.targetExponent
          (totalExponent m 0 - totalExponent (10 ^ k) 0)) = -(j : Int) :=
        ⟨(-min 0 (Format.binary64.targetExponent
          (totalExponent m 0 - totalExponent (10 ^ k) 0))).toNat, by omega⟩
      have hvalue : ((m * 2 ^ j : Nat) : ℚ) / (10 ^ k : Nat) * 2 ^ (-(j : Int)) =
          m * 10 ^ (-(k : Int)) := by
        push_cast
        rw [zpow_neg, zpow_neg, zpow_natCast, zpow_natCast]
        field_simp
      have hle : -(j : Int) ≤ target (m * 10 ^ (-(k : Int))) := by
        have hdiv := le_target_div hm hpow
        rw [← hj, zpow_neg, zpow_natCast, ← div_eq_mul_inv]
        push_cast at hdiv
        omega
      have hround := roundWithAccuracy_eq .positive (ofMantissaAndAccuracy_div (m * 2 ^ j) hpow)
        (by positivity) (e := -(j : Int)) (by rw [hvalue]; exact hle)
      rw [hvalue] at hround
      rw [← hround]
      have hsign : Sign.positive / Sign.positive = Sign.positive := rfl
      simp only [UnpackedFloat.div, divCore, hsign, neg_neg, Int.toNat_natCast, sub_self, hj,
        Nat.shiftLeft_eq, zero_sub]

/-! ## Numbers near a double -/

/-- A positive finite double in the form that the format prescribes. -/
structure Canonical (m : Nat) (e : Int) : Prop where
  pos : 0 < m
  lt : m < 2 ^ 53
  le : -1074 ≤ e
  normal : 2 ^ 52 ≤ m ∨ e = -1074

theorem carry_eq {sign : Sign} {r m k : Nat} {e : Int} (hm : 0 < m) (hr : r = m * 2 ^ k)
    (htarget : Format.binary64.targetExponent (totalExponent r e) = e + k) :
    carry sign r e = .finite sign m (e + k) hm := by
  have hquot : (r : ℚ) / 2 ^ k = m := by
    rw [hr]
    push_cast
    field_simp
  have hshift : shiftToTargetExponent Format.binary64 r e .exact = (split m, e + k) := by
    rw [shiftToTargetExponent, htarget, shiftToExponent, ofMantissaAndAccuracy_exact, ← hquot,
      ← shiftRight_split (Nat.cast_nonneg r)]
    simp
  have hmantissa : (split (m : ℚ)).mantissa = m := Nat.floor_natCast m
  simp only [carry, hshift, hmantissa, hm.ne', dite_false]

/-- A canonical mantissa is not shifted. -/
theorem Canonical.carry_self {m : Nat} {e : Int} (h : Canonical m e) (sign : Sign) :
    carry sign m e = .finite sign m e h.pos := by
  have hlog : m.log2 ≤ 52 := Nat.lt_succ_iff.mp ((Nat.log2_lt h.pos.ne').mpr h.lt)
  have hnormal : 52 ≤ m.log2 ∨ e = -1074 := h.normal.imp_left (Nat.le_log2 h.pos.ne').mpr
  have hle := h.le
  have hcarry := @carry_eq sign m m 0 e h.pos (by simp) (by
    rw [targetExponent_eq, totalExponent]
    push_cast
    omega)
  simpa using hcarry

/-- Below a power of two the gaps are half as wide, and rounding up to it carries. -/
theorem carry_two_pow (sign : Sign) {e : Int} (he : -1074 < e) :
    carry sign (2 ^ 53) (e - 1) = .finite sign (2 ^ 52) e (by decide) := by
  have hcarry := @carry_eq sign (2 ^ 53) (2 ^ 52) 1 (e - 1) (by decide) (by decide) (by
      rw [targetExponent_eq, totalExponent, Nat.log2_two_pow]
      push_cast
      omega)
  simpa using hcarry

/-- Numbers near a double have its exponent, or just below a power of two the one below it. -/
theorem Canonical.target_near {m : Nat} {e : Int} (h : Canonical m e) {x : ℚ} (hx : 0 < x)
    (hlow : (m - 1 / 2) * 2 ^ e < x ∨ m = 2 ^ 52 ∧ (m - 1 / 4) * 2 ^ e < x)
    (hhigh : x < (m + 1 / 2) * 2 ^ e) :
    target x = e ∨ m = 2 ^ 52 ∧ -1074 < e ∧ target x = e - 1 := by
  have htwo : (0 : ℚ) < 2 ^ e := by positivity
  have hle := h.le
  have hmax : (m : ℚ) + 1 ≤ 2 ^ 53 := by exact_mod_cast h.lt
  have hlogHigh : Int.log 2 x < 53 + e := by
    rw [← Int.lt_zpow_iff_log_lt one_lt_two hx]
    calc x < (m + 1 / 2) * 2 ^ e := hhigh
      _ ≤ 2 ^ 53 * 2 ^ e := by gcongr; linarith
      _ = ((2 : Nat) : ℚ) ^ (53 + e) := by
          push_cast
          rw [zpow_add₀ two_ne_zero]
          norm_num
  rw [target_eq]
  by_cases hmin : e = -1074
  · left
    omega
  have hnormal : 2 ^ 52 ≤ m := h.normal.resolve_right hmin
  by_cases hpow : m = 2 ^ 52
  · have hlog : 51 + e ≤ Int.log 2 x := by
      rw [← Int.zpow_le_iff_le_log one_lt_two hx]
      have hquarter : ((m : ℚ) - 1 / 2) * 2 ^ e < x := by
        rcases hlow with hlow | ⟨-, hlow⟩
        · exact hlow
        · refine lt_trans ?_ hlow
          gcongr
          norm_num
      calc ((2 : Nat) : ℚ) ^ (51 + e) = 2 ^ 51 * 2 ^ e := by
            push_cast
            rw [zpow_add₀ two_ne_zero]
            norm_num
        _ ≤ (m - 1 / 2) * 2 ^ e := by
            gcongr
            rw [hpow]
            norm_num
        _ ≤ x := hquarter.le
    by_cases hsame : Int.log 2 x = 51 + e
    · exact .inr ⟨hpow, by omega, by omega⟩
    · exact .inl (by omega)
  · left
    have hlog : 52 + e ≤ Int.log 2 x := by
      rw [← Int.zpow_le_iff_le_log one_lt_two hx]
      have hnext : (2 : ℚ) ^ 52 + 1 ≤ m := by
        have : 2 ^ 52 + 1 ≤ m := by omega
        exact_mod_cast this
      have hhalf := hlow.resolve_right fun hcontra => hpow hcontra.1
      calc ((2 : Nat) : ℚ) ^ (52 + e) = 2 ^ 52 * 2 ^ e := by
            push_cast
            rw [zpow_add₀ two_ne_zero]
            norm_num
        _ ≤ (m - 1 / 2) * 2 ^ e := by
            gcongr
            linarith
        _ ≤ x := hhalf.le
    omega

/-- **Numbers near a double are rounded to it**: closer than the `2 ^ 54`th part of it. -/
theorem Canonical.roundRat_near {m : Nat} {e : Int} (h : Canonical m e) (sign : Sign) {x : ℚ}
    (hx : |x - m * 2 ^ e| * 2 ^ 54 < m * 2 ^ e) :
    roundRat sign x = .finite sign m e h.pos := by
  have htwo : (0 : ℚ) < 2 ^ e := by positivity
  have hmax : (m : ℚ) < 2 ^ 53 := by exact_mod_cast h.lt
  have hpos : (0 : ℚ) < m := by exact_mod_cast h.pos
  -- The distance, measured in units of the last place.
  obtain ⟨d, hd⟩ : ∃ d : ℚ, x = (m + d) * 2 ^ e :=
    ⟨x / 2 ^ e - m, by field_simp; ring⟩
  have hdist : |d| * 2 ^ 54 < m := by
    rw [hd, show ((m : ℚ) + d) * 2 ^ e - m * 2 ^ e = d * 2 ^ e by ring, abs_mul,
      abs_of_pos htwo] at hx
    have : |d| * 2 ^ 54 * 2 ^ e < m * 2 ^ e := by linarith
    exact lt_of_mul_lt_mul_right this htwo.le
  have hhalf : |d| < 1 / 2 := by linarith
  obtain ⟨hlow, hhigh⟩ := abs_lt.mp hhalf
  have hone : (1 : ℚ) ≤ m := by exact_mod_cast h.pos
  have hxpos : 0 < x := by
    rw [hd]
    exact mul_pos (by linarith) htwo
  have hbelow : ((m : ℚ) - 1 / 2) * 2 ^ e < x := by
    rw [hd]
    gcongr
    linarith
  have habove : x < ((m : ℚ) + 1 / 2) * 2 ^ e := by
    rw [hd]
    gcongr
  rcases h.target_near hxpos (.inl hbelow) habove with htarget | ⟨hpow, he, htarget⟩
  · have hquot : x / 2 ^ e = m + d := by
      rw [hd]
      field_simp
    rw [roundRat, htarget, hquot, roundedMantissa_split (by linarith) (k := m), h.carry_self]
    rw [show (m : ℚ) + d - m = d by ring]
    exact hhalf
  · have hquot : x / 2 ^ (e - 1) = (2 ^ 53 : Nat) + 2 * d := by
      rw [hd, hpow, zpow_sub₀ two_ne_zero]
      push_cast
      field_simp
      ring
    have hfine : |2 * d| < 1 / 2 := by
      rw [abs_mul, abs_of_pos two_pos]
      rw [hpow] at hdist
      push_cast at hdist
      linarith
    obtain ⟨hfineLow, -⟩ := abs_lt.mp hfine
    subst hpow
    rw [roundRat, htarget, hquot, roundedMantissa_split (k := 2 ^ 53), carry_two_pow sign he]
    · push_cast
      linarith
    · rw [show ((2 ^ 53 : Nat) : ℚ) + 2 * d - (2 ^ 53 : Nat) = 2 * d by ring]
      exact hfine

end Rounding
