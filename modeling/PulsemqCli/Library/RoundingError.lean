import PulsemqCli.Library.FloatingPoint
import Mathlib.Algebra.Order.Ring.Pow

/-!
# Rounding errors

`Near u k x y` says that `y` is what is left of `x` after up to `k` relative errors of up to `u`
each. Errors add up along a computation: each rule says how many the result of an operation has,
given those of its operands. A rounding is one error of `2 ^ -precision`, unless the number is so
small that its unit does not shrink with it.

Numbers are not negative here, and an error is a factor between `1 - u` and `1 + u`. Counting errors
instead of multiplying out the factors keeps every rule linear, and `abs_sub_le` turns a count into
a bound at the end, at the price of a slightly larger constant.
-/

namespace FloatingPoint

variable {u x x' y y' z : ℚ} {k l : ℕ}

/-- `y` is `x` up to `k` relative errors of `u`. -/
structure Near (u : ℚ) (k : ℕ) (x y : ℚ) : Prop where
  lower : x * (1 - u) ^ k ≤ y
  upper : y ≤ x * (1 + u) ^ k

namespace Near

theorem refl (u x : ℚ) : Near u 0 x x where
  lower := by rw [pow_zero, mul_one]
  upper := by rw [pow_zero, mul_one]

theorem nonneg (h : Near u k x y) (hu_one : u ≤ 1) (hx : 0 ≤ x) : 0 ≤ y :=
  (mul_nonneg hx (pow_nonneg (by linarith) k)).trans h.lower

section

variable (hu : 0 ≤ u) (hu_one : u ≤ 1)
include hu hu_one

/-- There are not more errors than are counted. -/
theorem mono (h : Near u k x y) (hx : 0 ≤ x) (hkl : k ≤ l) : Near u l x y where
  lower := by
    have hpow : (1 - u) ^ l ≤ (1 - u) ^ k :=
      pow_le_pow_of_le_one (by linarith) (by linarith) hkl
    exact (mul_le_mul_of_nonneg_left hpow hx).trans h.lower
  upper := by
    have hpow : (1 + u) ^ k ≤ (1 + u) ^ l := pow_le_pow_right₀ (by linarith) hkl
    exact h.upper.trans (mul_le_mul_of_nonneg_left hpow hx)

/-- Errors after errors. -/
theorem trans (h : Near u k x y) (h' : Near u l y z) : Near u (k + l) x z where
  lower := by
    have hpow : 0 ≤ (1 - u) ^ l := pow_nonneg (by linarith) l
    calc x * (1 - u) ^ (k + l) = x * (1 - u) ^ k * (1 - u) ^ l := by rw [pow_add, mul_assoc]
      _ ≤ y * (1 - u) ^ l := mul_le_mul_of_nonneg_right h.lower hpow
      _ ≤ z := h'.lower
  upper := by
    have hpow : 0 ≤ (1 + u) ^ l := pow_nonneg (by linarith) l
    calc z ≤ y * (1 + u) ^ l := h'.upper
      _ ≤ x * (1 + u) ^ k * (1 + u) ^ l := mul_le_mul_of_nonneg_right h.upper hpow
      _ = x * (1 + u) ^ (k + l) := by rw [pow_add, mul_assoc]

/-- The errors of a product are those of both factors. -/
theorem mul (h : Near u k x y) (h' : Near u l x' y') (hx : 0 ≤ x) (hx' : 0 ≤ x') :
    Near u (k + l) (x * x') (y * y') where
  lower := by
    have hy := h.nonneg hu_one hx
    have hpow : 0 ≤ x' * (1 - u) ^ l := mul_nonneg hx' (pow_nonneg (by linarith) l)
    calc x * x' * (1 - u) ^ (k + l) = x * (1 - u) ^ k * (x' * (1 - u) ^ l) := by
          rw [pow_add]
          ring
      _ ≤ y * (x' * (1 - u) ^ l) := mul_le_mul_of_nonneg_right h.lower hpow
      _ ≤ y * y' := mul_le_mul_of_nonneg_left h'.lower hy
  upper := by
    have hy' := h'.nonneg hu_one hx'
    have hpow : 0 ≤ x * (1 + u) ^ k := mul_nonneg hx (pow_nonneg (by linarith) k)
    calc y * y' ≤ x * (1 + u) ^ k * y' := mul_le_mul_of_nonneg_right h.upper hy'
      _ ≤ x * (1 + u) ^ k * (x' * (1 + u) ^ l) := mul_le_mul_of_nonneg_left h'.upper hpow
      _ = x * x' * (1 + u) ^ (k + l) := by
          rw [pow_add]
          ring

/-- An error of a divisor is one and a half of the quotient, and counts as two. -/
theorem inv (h : Near u k x y) (hu_half : u ≤ 1 / 2) (hx : 0 < x) : Near u (2 * k) x⁻¹ y⁻¹ := by
  have hbelow : 0 < 1 - u := by linarith
  have habove : 0 < 1 + u := by linarith
  have hy : 0 < y := (mul_pos hx (pow_pos hbelow k)).trans_le h.lower
  have hproduct : (1 - u) ^ 2 * (1 + u) ≤ 1 := by nlinarith [mul_nonneg hu hu]
  have hproduct' : 1 ≤ (1 + u) ^ 2 * (1 - u) := by nlinarith [mul_nonneg hu hu]
  constructor
  · rw [inv_mul_eq_div, le_inv_comm₀ (div_pos (pow_pos hbelow _) hx) hy, inv_div]
    refine h.upper.trans ?_
    rw [le_div_iff₀ (pow_pos hbelow _), mul_assoc, pow_mul, ← mul_pow, mul_comm (1 + u)]
    exact mul_le_of_le_one_right hx.le (pow_le_one₀ (by positivity) hproduct)
  · rw [inv_mul_eq_div, inv_le_comm₀ hy (div_pos (pow_pos habove _) hx), inv_div]
    refine le_trans ?_ h.lower
    rw [div_le_iff₀ (pow_pos habove _), mul_assoc, pow_mul, ← mul_pow, mul_comm (1 - u)]
    exact le_mul_of_one_le_right hx.le (one_le_pow₀ hproduct')

/-- The errors together are at most what they are above. -/
theorem abs_sub_le (h : Near u k x y) (hx : 0 ≤ x) : |y - x| ≤ x * ((1 + u) ^ k - 1) := by
  have hbelow : 1 + (k : ℚ) * -u ≤ (1 + -u) ^ k := one_add_mul_le_pow (by linarith) k
  have habove : 1 + (k : ℚ) * u ≤ (1 + u) ^ k := one_add_mul_le_pow (by linarith) k
  have hsymm : 1 - (1 - u) ^ k ≤ (1 + u) ^ k - 1 := by
    rw [← sub_eq_add_neg] at hbelow
    linarith
  have hlower := h.lower
  have hupper := h.upper
  have hscaled := mul_le_mul_of_nonneg_left hsymm hx
  refine abs_le.2 ⟨?_, ?_⟩ <;> linarith

end

/-- A sum has no more errors than each of its parts. -/
theorem add (h : Near u k x y) (h' : Near u k x' y') : Near u k (x + x') (y + y') where
  lower := by
    rw [add_mul]
    exact add_le_add h.lower h'.lower
  upper := by
    rw [add_mul]
    exact add_le_add h.upper h'.upper

end Near

/-! ### What a rounding adds -/

/-- Rounding to the nearest integer is off by half a unit at most. -/
theorem abs_roundHalfEven_sub_le (x : ℚ) : |(roundHalfEven x : ℚ) - x| ≤ 1 / 2 := by
  have hfloor := Int.floor_le x
  have hlt := Int.lt_floor_add_one x
  rw [roundHalfEven, abs_le]
  split_ifs <;> push_cast <;> constructor <;> linarith

namespace Format

variable (F : Format)

/-- The relative error of a rounding. -/
def roundoff : ℚ :=
  2 ^ (-F.precision : ℤ)

/-- The number is not so small that its unit is the smallest there is. -/
def Normal (x : ℚ) : Prop :=
  x = 0 ∨ (2 : ℚ) ^ (F.minExponent + F.precision - 1) ≤ x

variable {F}

theorem roundoff_nonneg : 0 ≤ F.roundoff :=
  (two_zpow_pos _).le

theorem roundoff_le_one : F.roundoff ≤ 1 :=
  zpow_le_one_of_nonpos₀ one_le_two (by omega)

theorem Normal.nonneg (h : F.Normal x) : 0 ≤ x := by
  rcases h with rfl | h
  · exact le_rfl
  · exact (two_zpow_pos _).le.trans h

theorem Normal.mono (h : F.Normal x) (hx : x ≠ 0) (hxy : x ≤ y) : F.Normal y :=
  Or.inr ((h.resolve_left hx).trans hxy)

/-- **Rounding is one error.** -/
theorem near_nearest (h : F.Normal x) : Near F.roundoff 1 x (F.nearest x) := by
  rcases h with rfl | h
  · rw [nearest_zero]
    exact ⟨by rw [zero_mul], by rw [zero_mul]⟩
  have hx : 0 < x := (two_zpow_pos _).trans_le h
  have hlog : (2 : ℚ) ^ Int.log 2 x ≤ x := by
    exact_mod_cast Int.zpow_log_le_self (R := ℚ) one_lt_two hx
  have hlog_ge : F.minExponent + F.precision - 1 ≤ Int.log 2 x :=
    (Int.zpow_le_iff_le_log one_lt_two hx).1 (by exact_mod_cast h)
  have hexponent : F.exponent x = Int.log 2 x + 1 - F.precision := by
    rw [exponent, abs_of_pos hx]
    exact max_eq_left (by omega)
  -- Half of the unit is the number's power of two, scaled by the roundoff.
  have hunit : (2 : ℚ) ^ F.exponent x / 2 = 2 ^ Int.log 2 x * F.roundoff := by
    rw [hexponent, roundoff, ← zpow_add₀ two_ne_zero, div_eq_iff two_ne_zero,
      ← zpow_add_one₀ two_ne_zero]
    congr 1
    ring
  have herror : |F.nearest x - x| ≤ x * F.roundoff := by
    have hpos := two_zpow_pos (F.exponent x)
    have hquotient := abs_roundHalfEven_sub_le (x / 2 ^ F.exponent x)
    have hscale : F.nearest x - x =
        (roundHalfEven (x / 2 ^ F.exponent x) - x / 2 ^ F.exponent x) * 2 ^ F.exponent x := by
      rw [nearest, quantize, sub_mul, div_mul_cancel₀ _ hpos.ne']
    rw [hscale, abs_mul, abs_of_pos hpos]
    calc _ ≤ 1 / 2 * (2 : ℚ) ^ F.exponent x := mul_le_mul_of_nonneg_right hquotient hpos.le
      _ = 2 ^ Int.log 2 x * F.roundoff := by rw [one_div_mul_eq_div, hunit]
      _ ≤ x * F.roundoff := mul_le_mul_of_nonneg_right hlog roundoff_nonneg
  obtain ⟨hlower, hupper⟩ := abs_le.1 herror
  constructor <;> rw [pow_one] <;> linarith

end Format

/-- A value that is rounded to is near. -/
theorem Value.near_of_toRat_round {F : Format} (h : (round x : Value F).toRat = some y)
    (hx : F.Normal x) : Near F.roundoff 1 x y := by
  rw [← nearest_of_toRat_round h]
  exact Format.near_nearest hx

end FloatingPoint
