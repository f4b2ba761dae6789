import Mathlib.Data.Int.Log
import Mathlib.Algebra.Order.Field.Rat
import Mathlib.Data.Rat.Floor
import Mathlib.Algebra.Order.Field.Power
import Mathlib.Tactic.Linarith
import Mathlib.Tactic.Positivity

/-!
# Binary floating point

A format says how many bits a significand has, and which exponents there are. `nearest` rounds a
rational to the nearest number of the format, a tie to the even significand, as if there were no
largest exponent; `round` is the number, or infinity where it would be too large. The arithmetic is
exact arithmetic, rounded.

Zero has one sign here. Where the sign of a zero matters, in a division by it, it is taken to be
positive.

Everything rests on one function, rounding to the nearest integer with ties to even, of which three
things are used: it is within one of the floor, it fixes the integers, and it is monotone.
`quantize` applies it at a power of two, and `nearest` chooses the power from the size of the
argument.

That `nearest` is monotone is the one result with an argument. Where two numbers have the same
exponent it is the monotonicity of `quantize`. Otherwise a power of two lies between them, and it is
a multiple of both their units (`nearest_mono`).

A `Value` is a number of the format together with the proof that it is one, an infinity, or a NaN.
Lemmas about operations are stated with `toRat`, which is defined on the finite values. So a
hypothesis that a result is finite carries the finiteness of the operands with it (`toRat_mul`,
`toRat_add`), and no proof has to look at infinities.
-/

namespace FloatingPoint

/-! ### To the nearest integer -/

/-- The nearest integer, of two the even one. -/
def roundHalfEven (x : ℚ) : ℤ :=
  if x - ⌊x⌋ < 1 / 2 then ⌊x⌋
  else if 1 / 2 < x - ⌊x⌋ then ⌊x⌋ + 1
  else if ⌊x⌋ % 2 = 0 then ⌊x⌋ else ⌊x⌋ + 1

/-- Rounding goes down to the floor at most. -/
theorem floor_le_roundHalfEven (x : ℚ) : ⌊x⌋ ≤ roundHalfEven x := by
  rw [roundHalfEven]
  split_ifs <;> omega

/-- And up to the next integer at most. -/
theorem roundHalfEven_le_floor_add_one (x : ℚ) : roundHalfEven x ≤ ⌊x⌋ + 1 := by
  rw [roundHalfEven]
  split_ifs <;> omega

@[simp] theorem roundHalfEven_intCast (n : ℤ) : roundHalfEven n = n := by
  rw [roundHalfEven, Int.floor_intCast, sub_self, if_pos (by norm_num)]

/-- Rounding to the nearest integer is monotone. -/
theorem roundHalfEven_mono {x y : ℚ} (h : x ≤ y) : roundHalfEven x ≤ roundHalfEven y := by
  rcases (Int.floor_mono h).eq_or_lt with hfloor | hfloor
  · rw [roundHalfEven, roundHalfEven, hfloor]
    have hfract : x - ⌊y⌋ ≤ y - ⌊y⌋ := sub_le_sub_right h _
    split_ifs <;> first | omega | linarith
  · calc roundHalfEven x ≤ ⌊x⌋ + 1 := roundHalfEven_le_floor_add_one x
      _ ≤ ⌊y⌋ := hfloor
      _ ≤ roundHalfEven y := floor_le_roundHalfEven y

/-- What is below an integer is not rounded above it. -/
theorem roundHalfEven_le {x : ℚ} {n : ℤ} (h : x ≤ n) : roundHalfEven x ≤ n :=
  (roundHalfEven_mono h).trans_eq (roundHalfEven_intCast n)

/-- What is above an integer is not rounded below it. -/
theorem le_roundHalfEven {x : ℚ} {n : ℤ} (h : n ≤ x) : n ≤ roundHalfEven x :=
  (roundHalfEven_intCast n).ge.trans (roundHalfEven_mono h)

/-! ### To the nearest multiple of a power of two -/

theorem two_zpow_pos (e : ℤ) : (0 : ℚ) < 2 ^ e :=
  zpow_pos two_pos e

/-- The nearest multiple of `2 ^ e`. -/
def quantize (e : ℤ) (x : ℚ) : ℚ :=
  roundHalfEven (x / 2 ^ e) * 2 ^ e

/-- Rounding to multiples of a power of two is monotone. -/
theorem quantize_mono (e : ℤ) {x y : ℚ} (h : x ≤ y) : quantize e x ≤ quantize e y := by
  have hdiv : x / 2 ^ e ≤ y / 2 ^ e := div_le_div_of_nonneg_right h (two_zpow_pos e).le
  exact mul_le_mul_of_nonneg_right (Int.cast_le.2 (roundHalfEven_mono hdiv)) (two_zpow_pos e).le

@[simp] theorem quantize_zero (e : ℤ) : quantize e 0 = 0 := by
  rw [quantize, zero_div, ← Int.cast_zero, roundHalfEven_intCast, Int.cast_zero, zero_mul]

/-- Multiples of a larger power of two are multiples of a smaller one. -/
theorem quantize_zpow_mul {e k : ℤ} (h : e ≤ k) (m : ℤ) : quantize e (m * 2 ^ k) = m * 2 ^ k := by
  obtain ⟨n, rfl⟩ := Int.le.dest h
  have hquotient : (m * 2 ^ (e + n) : ℚ) / 2 ^ e = (m * 2 ^ n : ℤ) := by
    rw [zpow_add₀ two_ne_zero, zpow_natCast]
    push_cast
    field_simp
  rw [quantize, hquotient, roundHalfEven_intCast, ← hquotient,
    div_mul_cancel₀ _ (two_zpow_pos e).ne']

/-- A power of two is a multiple of every smaller one. -/
theorem quantize_two_zpow {e k : ℤ} (h : e ≤ k) : quantize e (2 ^ k) = 2 ^ k := by
  have hone := quantize_zpow_mul h 1
  rwa [Int.cast_one, one_mul] at hone

/-! ### Formats

A number of a format is an integer of so many bits times a power of two, down to a smallest exponent
and below a largest power. Numbers near zero have the smallest unit, and fewer bits. -/

/-- The numbers of a format are `m * 2 ^ e` with at most `precision` bits in `m`, an exponent from
`minExponent` on, and less than `2 ^ maxExponent`. -/
structure Format where
  precision : ℕ
  precision_pos : 0 < precision
  minExponent : ℤ
  maxExponent : ℤ

namespace Format

/-- Double precision. -/
def binary64 : Format where
  precision := 53
  precision_pos := by decide
  minExponent := -1074
  maxExponent := 1024

variable (F : Format)

def Representable (q : ℚ) : Prop :=
  (∃ m e : ℤ, |m| ≤ 2 ^ F.precision ∧ F.minExponent ≤ e ∧ q = m * 2 ^ e) ∧
    |q| < 2 ^ F.maxExponent

/-- The exponent of the unit to which a number is rounded. -/
def exponent (x : ℚ) : ℤ :=
  max (Int.log 2 |x| + 1 - F.precision) F.minExponent

/-- The nearest number of the format, were there no largest exponent. -/
def nearest (x : ℚ) : ℚ :=
  quantize (F.exponent x) x

variable {F} {x y : ℚ}

@[simp] theorem nearest_zero : F.nearest 0 = 0 :=
  quantize_zero _

/-- Larger numbers have larger exponents. -/
theorem exponent_mono (hx : 0 < x) (h : x ≤ y) : F.exponent x ≤ F.exponent y := by
  rw [exponent, exponent, abs_of_pos hx, abs_of_pos (hx.trans_le h)]
  have hlog : Int.log 2 x ≤ Int.log 2 y := Int.log_mono_right hx h
  exact max_le_max_right _ (by omega)

/-- Rounding keeps the sign. -/
theorem nearest_nonneg (h : 0 ≤ x) : 0 ≤ F.nearest x :=
  (quantize_zero _).ge.trans (quantize_mono _ h)

/-- **Rounding is monotone.** Where the unit grows, a power of two comes between the two numbers,
and it is a multiple of both units. -/
theorem nearest_mono (hx : 0 ≤ x) (h : x ≤ y) : F.nearest x ≤ F.nearest y := by
  rcases hx.eq_or_lt with rfl | hx
  · rw [nearest_zero]
    exact nearest_nonneg h
  have hy := hx.trans_le h
  rcases (F.exponent_mono hx h).eq_or_lt with hunit | hunit
  · rw [nearest, nearest, hunit]
    exact quantize_mono _ h
  · have hprecision := F.precision_pos
    have hy_exponent : F.exponent y = Int.log 2 y + 1 - F.precision := by
      have hmin : F.minExponent ≤ F.exponent x := le_max_right _ _
      have hmax : F.exponent y = max (Int.log 2 y + 1 - F.precision) F.minExponent := by
        rw [exponent, abs_of_pos hy]
      rw [hmax] at hunit ⊢
      exact max_eq_left (by omega)
    have hbelow : x < 2 ^ Int.log 2 y := by
      refine (Int.lt_zpow_iff_log_lt one_lt_two hx).2 ?_
      have hx_exponent : Int.log 2 x + 1 - F.precision ≤ F.exponent x := by
        rw [exponent, abs_of_pos hx]
        exact le_max_left _ _
      omega
    calc F.nearest x ≤ quantize (F.exponent x) (2 ^ Int.log 2 y) := quantize_mono _ hbelow.le
      _ = 2 ^ Int.log 2 y := quantize_two_zpow (by omega)
      _ = quantize (F.exponent y) (2 ^ Int.log 2 y) := (quantize_two_zpow (by omega)).symm
      _ ≤ F.nearest y := quantize_mono _ (Int.zpow_log_le_self one_lt_two hy)

/-- What is rounded is a multiple of a unit by a significand that fits. -/
theorem nearest_eq (x : ℚ) : ∃ m e : ℤ, |m| ≤ 2 ^ F.precision ∧ F.minExponent ≤ e ∧
    F.nearest x = m * 2 ^ e := by
  refine ⟨_, F.exponent x, ?_, le_max_right _ _, rfl⟩
  have hlog : |x| ≤ 2 ^ (F.precision + F.exponent x) := by
    have hlt := Int.lt_zpow_succ_log_self one_lt_two |x|
    have hle : Int.log 2 |x| + 1 ≤ F.precision + F.exponent x := by
      have hmax : Int.log 2 |x| + 1 - F.precision ≤ F.exponent x := le_max_left _ _
      omega
    exact hlt.le.trans (zpow_le_zpow_right₀ one_le_two hle)
  have hquotient : |x / 2 ^ F.exponent x| ≤ (2 ^ F.precision : ℤ) := by
    rw [abs_div, abs_of_pos (two_zpow_pos _), div_le_iff₀ (two_zpow_pos _)]
    rw [zpow_add₀ two_ne_zero, zpow_natCast] at hlog
    exact_mod_cast hlog
  obtain ⟨hlower, hupper⟩ := abs_le.1 hquotient
  refine abs_le.2 ⟨le_roundHalfEven ?_, roundHalfEven_le hupper⟩
  rwa [Int.cast_neg]

/-- A number of the format is its own nearest. -/
theorem nearest_eq_self {m e : ℤ} (hm : |m| < 2 ^ F.precision) (he : F.minExponent ≤ e) :
    F.nearest (m * 2 ^ e) = m * 2 ^ e := by
  by_cases hzero : m = 0
  · rw [hzero, Int.cast_zero, zero_mul, nearest_zero]
  have hpos : 0 < |(m : ℚ) * 2 ^ e| :=
    abs_pos.2 (mul_ne_zero (Int.cast_ne_zero.2 hzero) (two_zpow_pos e).ne')
  have hlog : Int.log 2 |(m : ℚ) * 2 ^ e| < F.precision + e := by
    refine (Int.lt_zpow_iff_log_lt one_lt_two hpos).1 ?_
    have hcast : |(m : ℚ)| < 2 ^ F.precision := by exact_mod_cast hm
    rw [Nat.cast_ofNat, abs_mul, abs_of_pos (two_zpow_pos e), zpow_add₀ two_ne_zero, zpow_natCast]
    exact mul_lt_mul_of_pos_right hcast (two_zpow_pos e)
  exact quantize_zpow_mul (max_le (by omega) he) m

end Format

/-! ### Values

Operations are exact operations on rationals, rounded. What has no number, a quotient by zero or an
infinity less itself, follows the usual rules. -/

/-- A number of a format, an infinity, or not a number. -/
inductive Value (F : Format) where
  | finite (q : ℚ) (h : F.Representable q)
  | infinite (negative : Bool)
  | nan
  deriving DecidableEq

namespace Value

variable {F : Format}

/-- The number that a finite value is. -/
def toRat : Value F → Option ℚ
  | .finite q _ => some q
  | _ => none

/-- A rational, rounded. -/
def round (x : ℚ) : Value F :=
  if h : |F.nearest x| < 2 ^ F.maxExponent then .finite (F.nearest x) ⟨Format.nearest_eq x, h⟩
  else .infinite (x < 0)

def ofNat (n : ℕ) : Value F :=
  round n

def add : Value F → Value F → Value F
  | .finite a _, .finite b _ => round (a + b)
  | .infinite s, .infinite t => if s = t then .infinite s else .nan
  | .infinite s, .finite _ _ | .finite _ _, .infinite s => .infinite s
  | _, _ => .nan

def mul : Value F → Value F → Value F
  | .finite a _, .finite b _ => round (a * b)
  | .infinite s, .infinite t => .infinite (s != t)
  | .infinite s, .finite a _ | .finite a _, .infinite s =>
    if a = 0 then .nan else .infinite (s != decide (a < 0))
  | _, _ => .nan

def div : Value F → Value F → Value F
  | .finite a _, .finite b _ =>
    if b = 0 then (if a = 0 then .nan else .infinite (a < 0)) else round (a / b)
  | .infinite s, .finite b _ => .infinite (s != decide (b < 0))
  | .finite _ _, .infinite _ => round 0
  | _, _ => .nan

/-- What is not a number is not less than anything, and nothing is less than it. -/
def lt : Value F → Value F → Bool
  | .finite a _, .finite b _ => a < b
  | .infinite s, .infinite t => s && !t
  | .infinite s, .finite _ _ => s
  | .finite _ _, .infinite t => !t
  | _, _ => false

def le : Value F → Value F → Bool
  | .finite a _, .finite b _ => a ≤ b
  | .infinite s, .infinite t => s || !t
  | .infinite s, .finite _ _ => s
  | .finite _ _, .infinite t => !t
  | _, _ => false

def isFinite (x : Value F) : Bool :=
  x.toRat.isSome

/-- Rounding is finite where the nearest number is below the largest exponent. -/
theorem toRat_round (x : ℚ) : (round x : Value F).toRat =
    if |F.nearest x| < 2 ^ F.maxExponent then some (F.nearest x) else none := by
  rw [round]
  split <;> rfl

/-- A value with a number is that number. -/
theorem eq_finite_of_toRat {v : Value F} {q : ℚ} (h : v.toRat = some q) :
    ∃ hq, v = .finite q hq := by
  cases v with
  | finite q' hq =>
    cases h
    exact ⟨hq, rfl⟩
  | infinite | nan => cases h

/-- What is rounded to a finite value is rounded to the nearest number. -/
theorem nearest_of_toRat_round {x q : ℚ} (h : (round x : Value F).toRat = some q) :
    F.nearest x = q := by
  rw [toRat_round] at h
  split at h
  · exact Option.some_inj.1 h
  · cases h

/-- **Below a number that is rounded to a finite value**, rounding is finite and monotone. -/
theorem toRat_round_of_le {x y q : ℚ} (hx : 0 ≤ x) (hxy : x ≤ y)
    (h : (round y : Value F).toRat = some q) :
    ∃ p, (round x : Value F).toRat = some p ∧ 0 ≤ p ∧ p ≤ q := by
  have hnonneg : 0 ≤ F.nearest x := Format.nearest_nonneg hx
  have hle : F.nearest x ≤ F.nearest y := Format.nearest_mono hx hxy
  rw [toRat_round] at h
  split at h
  next hy =>
    cases h
    rw [abs_of_nonneg (hnonneg.trans hle)] at hy
    refine ⟨F.nearest x, ?_, hnonneg, hle⟩
    rw [toRat_round, abs_of_nonneg hnonneg, if_pos (hle.trans_lt hy)]
  next => cases h

/-- A product of finite values is the exact product, rounded. -/
theorem toRat_mul_of_finite {a b : Value F} {x y : ℚ} (ha : a.toRat = some x)
    (hb : b.toRat = some y) : (mul a b).toRat = (round (x * y) : Value F).toRat := by
  obtain ⟨hx, rfl⟩ := eq_finite_of_toRat ha
  obtain ⟨hy, rfl⟩ := eq_finite_of_toRat hb
  rfl

/-- The factors of a finite product are finite. -/
theorem toRat_mul {a b : Value F} {q : ℚ} (h : (mul a b).toRat = some q) :
    ∃ x y, a.toRat = some x ∧ b.toRat = some y ∧ (round (x * y) : Value F).toRat = some q := by
  cases a with
  | finite x hx =>
    cases b with
    | finite y hy => exact ⟨x, y, rfl, rfl, h⟩
    | infinite s =>
      rw [mul] at h
      split at h <;> cases h
    | nan => cases h
  | infinite s =>
    cases b with
    | finite y hy =>
      rw [mul] at h
      split at h <;> cases h
    | infinite | nan => cases h
  | nan => cases b <;> cases h

/-- The terms of a finite sum are finite. -/
theorem toRat_add {a b : Value F} {q : ℚ} (h : (add a b).toRat = some q) :
    ∃ x y, a.toRat = some x ∧ b.toRat = some y ∧ (round (x + y) : Value F).toRat = some q := by
  cases a with
  | finite x hx =>
    cases b with
    | finite y hy => exact ⟨x, y, rfl, rfl, h⟩
    | infinite | nan => cases h
  | infinite s =>
    cases b with
    | infinite t =>
      rw [add] at h
      split at h <;> cases h
    | finite | nan => cases h
  | nan => cases b <;> cases h

/-- What is divided by a number that is not zero, with a finite quotient, is finite. -/
theorem toRat_div_finite {a : Value F} {y q : ℚ} {hy : F.Representable y} (hzero : y ≠ 0)
    (h : (div a (.finite y hy)).toRat = some q) :
    ∃ x, a.toRat = some x ∧ (round (x / y) : Value F).toRat = some q := by
  cases a with
  | finite x hx =>
    rw [div, if_neg hzero] at h
    exact ⟨x, rfl, h⟩
  | infinite | nan => cases h

/-- Where a value is a number, it is not negative. -/
def NonNeg (v : Value F) : Prop :=
  ∀ q, v.toRat = some q → 0 ≤ q

/-- A number that is not negative is rounded to a value that is not negative. -/
theorem nonNeg_round {x : ℚ} (hx : 0 ≤ x) : (round x : Value F).NonNeg := by
  intro q hq
  rw [← nearest_of_toRat_round hq]
  exact Format.nearest_nonneg hx

/-- Converted naturals are not negative. -/
theorem nonNeg_ofNat (n : ℕ) : (ofNat n : Value F).NonNeg :=
  nonNeg_round n.cast_nonneg

theorem NonNeg.add {a b : Value F} (ha : a.NonNeg) (hb : b.NonNeg) : (add a b).NonNeg := by
  cases a with
  | finite x hx =>
    cases b with
    | finite y hy => exact nonNeg_round (add_nonneg (ha x rfl) (hb y rfl))
    | infinite | nan => exact fun q hq ↦ by cases hq
  | infinite s =>
    cases b with
    | infinite t =>
      intro q hq
      rw [Value.add] at hq
      split at hq <;> cases hq
    | finite | nan => exact fun q hq ↦ by cases hq
  | nan => cases b <;> exact fun q hq ↦ by cases hq

theorem NonNeg.div {a b : Value F} (ha : a.NonNeg) (hb : b.NonNeg) : (div a b).NonNeg := by
  cases a with
  | finite x hx =>
    cases b with
    | finite y hy =>
      rw [Value.div]
      split_ifs
      · exact fun q hq ↦ by cases hq
      · exact fun q hq ↦ by cases hq
      · exact nonNeg_round (div_nonneg (ha x rfl) (hb y rfl))
    | infinite => exact nonNeg_round le_rfl
    | nan => exact fun q hq ↦ by cases hq
  | infinite s => cases b <;> exact fun q hq ↦ by cases hq
  | nan => cases b <;> exact fun q hq ↦ by cases hq

end Value

end FloatingPoint
