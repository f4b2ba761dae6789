import PulsemqCli.Library.RoundingError

/-!
# Durations and instants

A duration is a count of nanoseconds. Its seconds fit in 64 bits, and those of an instant in 64 bits
with a sign. What does not fit is a panic, and here `none`.

The operations are those of the Rust standard library that the program uses: a duration from
seconds, as a number of seconds in double precision, times such a number, and added to an instant.
Each is partial where the library panics, so that a caller that is shown to get a value is shown not
to panic.

Multiplying a duration by a count goes through double precision, from nanoseconds to seconds and
back. `isSome_add_mulF64_iff` says when it does not panic, in terms of the double that the product
is: because rounding is monotone, that is a threshold, and a smaller count is never worse
(`timesSecs_mono`). How far the result is from the exact multiple is counted in roundings: three on
the way to seconds, one for the count, one for the product, and half a nanosecond on the way back.
-/

namespace Clock

open FloatingPoint

abbrev F64 := Value .binary64

/-- The longest duration. -/
def maxDuration : ℕ :=
  2 ^ 64 * 10 ^ 9 - 1

/-- `Duration::from_secs`. -/
def fromSecs (secs : ℕ) : ℕ :=
  secs * 10 ^ 9

/-- `Duration::as_secs_f64`. -/
def asSecsF64 (d : ℕ) : F64 :=
  .add (.ofNat (d / 10 ^ 9)) (.div (.ofNat (d % 10 ^ 9)) (.ofNat (10 ^ 9)))

/-- `Duration::from_secs_f64`: the nearest nanosecond. -/
def fromSecsF64 (secs : F64) : Option ℕ :=
  match secs.toRat with
  | some q => if 0 ≤ q ∧ q < 2 ^ 64 then some (roundHalfEven (q * 10 ^ 9)).toNat else none
  | none => none

/-- `Duration::mul_f64`. -/
def mulF64 (d : ℕ) (x : F64) : Option ℕ :=
  fromSecsF64 (.mul x (asSecsF64 d))

/-- The time, in nanoseconds, from which on there is no instant. -/
def endOfClock : ℕ :=
  2 ^ 63 * 10 ^ 9

/-- A time of the clock, in nanoseconds. -/
structure Instant where
  nanos : ℤ
  lower : -(2 ^ 63 * 10 ^ 9) ≤ nanos
  upper : nanos < 2 ^ 63 * 10 ^ 9

/-- A natural number is not before the clock's range. -/
theorem neg_le_natCast (n : ℕ) : -(2 ^ 63 * 10 ^ 9 : ℤ) ≤ n :=
  le_trans (by norm_num) n.cast_nonneg

theorem natCast_lt {n : ℕ} (h : n < endOfClock) : (n : ℤ) < 2 ^ 63 * 10 ^ 9 := by
  exact_mod_cast h

/-- The time that is so many nanoseconds past the clock's zero. -/
def Instant.ofNat (n : ℕ) : Option Instant :=
  if h : n < endOfClock then some ⟨n, neg_le_natCast n, natCast_lt h⟩ else none

/-- `Instant + Duration`. -/
def Instant.add (t : Instant) (d : ℕ) : Option Instant :=
  if h : t.nanos + d < 2 ^ 63 * 10 ^ 9 then
    some ⟨t.nanos + d, t.lower.trans (le_add_of_nonneg_right d.cast_nonneg), h⟩
  else none

/-- An instant can be passed by a duration that stays within the range. -/
@[simp] theorem Instant.isSome_add {t : Instant} {d : ℕ} :
    (t.add d).isSome ↔ t.nanos + d < 2 ^ 63 * 10 ^ 9 := by
  rw [add]
  split
  next h => exact iff_of_true rfl h
  next h => exact iff_of_false Bool.false_ne_true h

/-! ### Multiples of a duration -/

/-- No duration has negative seconds. -/
theorem nonNeg_asSecsF64 (d : ℕ) : (asSecsF64 d).NonNeg :=
  (Value.nonNeg_ofNat _).add ((Value.nonNeg_ofNat _).div (Value.nonNeg_ofNat _))

/-- The number of seconds of a multiple of a duration, where it is finite. -/
def timesSecs (d index : ℕ) : Option ℚ :=
  (Value.mul (.ofNat index) (asSecsF64 d)).toRat

/-- A smaller multiple is not longer. -/
theorem timesSecs_mono {d i j : ℕ} (hij : i ≤ j) {q : ℚ} (h : timesSecs d j = some q) :
    ∃ p, timesSecs d i = some p ∧ 0 ≤ p ∧ p ≤ q := by
  obtain ⟨x, y, hx, hy, hround⟩ := Value.toRat_mul h
  have hy_nonneg : 0 ≤ y := nonNeg_asSecsF64 d y hy
  obtain ⟨w, hw, hw_nonneg, hwx⟩ :=
    Value.toRat_round_of_le i.cast_nonneg (Nat.cast_le.2 hij) hx
  obtain ⟨p, hp, hp_nonneg, hpq⟩ := Value.toRat_round_of_le (mul_nonneg hw_nonneg hy_nonneg)
    (mul_le_mul_of_nonneg_right hwx hy_nonneg) hround
  exact ⟨p, (Value.toRat_mul_of_finite hw hy).trans hp, hp_nonneg, hpq⟩

/-- The clock reaches the time that is so many seconds after `t`. -/
def Reaches (t : Instant) (q : ℚ) : Prop :=
  q < 2 ^ 64 ∧ t.nanos + roundHalfEven (q * 10 ^ 9) < 2 ^ 63 * 10 ^ 9

instance (t : Instant) (q : ℚ) : Decidable (Reaches t q) :=
  inferInstanceAs (Decidable (_ ∧ _))

/-- A clock that reaches an instant reaches the ones before it. -/
theorem Reaches.mono {t : Instant} {p q : ℚ} (hpq : p ≤ q) (h : Reaches t q) : Reaches t p := by
  refine ⟨hpq.trans_lt h.1, lt_of_le_of_lt ?_ h.2⟩
  exact add_le_add_right (roundHalfEven_mono (mul_le_mul_of_nonneg_right hpq (by norm_num))) _

/-- A multiple of a duration can be added exactly where the clock reaches so far. -/
theorem isSome_add_mulF64_iff (t : Instant) (d index : ℕ) :
    ((mulF64 d (.ofNat index)).bind t.add).isSome ↔
      ∃ q, timesSecs d index = some q ∧ Reaches t q := by
  have hsecs : mulF64 d (.ofNat index) = match timesSecs d index with
      | some q => if 0 ≤ q ∧ q < 2 ^ 64 then some (roundHalfEven (q * 10 ^ 9)).toNat else none
      | none => none := rfl
  rw [hsecs]
  cases h : timesSecs d index with
  | none =>
    refine iff_of_false Bool.false_ne_true ?_
    rintro ⟨q, hq, -⟩
    cases hq
  | some q =>
    obtain ⟨p, -, hp, hpq⟩ := timesSecs_mono le_rfl h
    have hq : 0 ≤ q := hp.trans hpq
    have hnanos : 0 ≤ roundHalfEven (q * 10 ^ 9) :=
      le_roundHalfEven (Int.cast_zero.trans_le (mul_nonneg hq (by norm_num)))
    have hreaches : (∃ q', some q = some q' ∧ Reaches t q') ↔ Reaches t q :=
      ⟨fun ⟨_, hq', h⟩ ↦ Option.some_inj.1 hq' ▸ h, fun h ↦ ⟨q, rfl, h⟩⟩
    rw [hreaches, Reaches]
    simp only [hq, true_and]
    split
    next hlt =>
      rw [Option.bind_some, Instant.isSome_add, Int.toNat_of_nonneg hnanos]
      exact (and_iff_right hlt).symm
    next hge => exact iff_of_false Bool.false_ne_true fun h ↦ hge h.1

/-! ### How exact they are -/

/-- The relative error of a rounding to a double. -/
abbrev roundoff : ℚ :=
  Format.binary64.roundoff

theorem roundoff_nonneg : 0 ≤ roundoff :=
  Format.roundoff_nonneg

theorem roundoff_le_one : roundoff ≤ 1 :=
  Format.roundoff_le_one

/-- A thousandth of a nanosecond, in seconds, is not too small for a double. -/
theorem normal_of_le {x : ℚ} (h : 1 / 10 ^ 12 ≤ x) : Format.binary64.Normal x := by
  have hpow : (2 : ℚ) ^ (-40 : ℤ) ≤ 1 / 10 ^ 12 := by norm_num
  exact Or.inr (((zpow_le_zpow_right₀ one_le_two (by decide)).trans hpow).trans h)

/-- What is near a number of nanoseconds, in seconds, is not too small for a double. -/
theorem normal_of_near {k : ℕ} {x y : ℚ} (h : Near roundoff k x y) (hk : k ≤ 4)
    (hx : x = 0 ∨ 1 / 10 ^ 9 ≤ x) : Format.binary64.Normal y := by
  rcases hx with rfl | hx
  · have hlower := h.lower
    have hupper := h.upper
    rw [zero_mul] at hlower hupper
    exact Or.inl (hupper.antisymm hlower)
  · have hhalf : (1 / 2 : ℚ) ≤ 1 - roundoff := by norm_num [Format.roundoff, Format.binary64]
    have hpow : (1 / 16 : ℚ) ≤ (1 - roundoff) ^ k := by
      calc (1 / 16 : ℚ) = (1 / 2) ^ 4 := by norm_num
        _ ≤ (1 / 2) ^ k := pow_le_pow_of_le_one (by norm_num) (by norm_num) hk
        _ ≤ (1 - roundoff) ^ k := pow_le_pow_left₀ (by norm_num) hhalf k
    refine normal_of_le ?_
    calc (1 / 10 ^ 12 : ℚ) ≤ 1 / 10 ^ 9 * (1 / 16) := by norm_num
      _ ≤ x * (1 - roundoff) ^ k :=
        mul_le_mul hx hpow (by norm_num) ((by norm_num : (0 : ℚ) ≤ 1 / 10 ^ 9).trans hx)
      _ ≤ y := h.lower

/-- A natural number has one error as a double. -/
theorem near_ofNat {n : ℕ} {q : ℚ} (h : (Value.ofNat n : F64).toRat = some q) :
    Near roundoff 1 n q := by
  refine Value.near_of_toRat_round h (normal_of_near (.refl _ _) (by decide) ?_)
  rcases n.eq_zero_or_pos with rfl | hn
  · exact Or.inl Nat.cast_zero
  · exact Or.inr ((by norm_num : (1 / 10 ^ 9 : ℚ) ≤ 1).trans (Nat.one_le_cast.2 hn))

/-- A billion is a double. -/
theorem billion_eq : ∃ h, (Value.ofNat (10 ^ 9) : F64) = .finite (10 ^ 9) h :=
  Value.eq_finite_of_toRat (by decide +kernel)

/-- A number of nanoseconds, in seconds, is none or at least one. -/
theorem eq_zero_or_nanosecond_le (n : ℕ) :
    (n / 10 ^ 9 : ℚ) = 0 ∨ 1 / 10 ^ 9 ≤ (n / 10 ^ 9 : ℚ) := by
  rcases n.eq_zero_or_pos with rfl | hn
  · exact Or.inl (by norm_num)
  · exact Or.inr (div_le_div_of_nonneg_right (Nat.one_le_cast.2 hn) (by norm_num))

/-- The seconds of a duration have three errors: the fraction's two, and that of the sum. -/
theorem near_asSecsF64 {d : ℕ} {q : ℚ} (h : (asSecsF64 d).toRat = some q) :
    Near roundoff 3 (d / 10 ^ 9) q := by
  obtain ⟨_, hbillion⟩ := billion_eq
  obtain ⟨secs, fraction, hsecs, hfraction, hsum⟩ := Value.toRat_add h
  rw [hbillion] at hfraction
  obtain ⟨nanos, hnanos, hquotient⟩ := Value.toRat_div_finite (by norm_num) hfraction
  have hnear_nanos : Near roundoff 1 ((d % 10 ^ 9 : ℕ) / 10 ^ 9) (nanos / 10 ^ 9) := by
    have hnear := near_ofNat hnanos
    have hscale : Near roundoff 0 (1 / 10 ^ 9) (1 / 10 ^ 9) := .refl _ _
    have hmul := hnear.mul roundoff_nonneg roundoff_le_one hscale (Nat.cast_nonneg _) (by norm_num)
    rwa [mul_one_div, mul_one_div] at hmul
  have hnear_fraction : Near roundoff 2 ((d % 10 ^ 9 : ℕ) / 10 ^ 9) fraction :=
    hnear_nanos.trans roundoff_nonneg roundoff_le_one (Value.near_of_toRat_round hquotient
      (normal_of_near hnear_nanos (by decide) (eq_zero_or_nanosecond_le _)))
  have hsplit : (d / 10 ^ 9 : ℚ) = (d / 10 ^ 9 : ℕ) + (d % 10 ^ 9 : ℕ) / 10 ^ 9 := by
    rw [eq_comm, eq_div_iff (by norm_num), add_mul, div_mul_cancel₀ _ (by norm_num)]
    exact_mod_cast Nat.div_add_mod' d (10 ^ 9)
  have hnear_sum : Near roundoff 2 (d / 10 ^ 9) (secs + fraction) := by
    rw [hsplit]
    exact ((near_ofNat hsecs).mono roundoff_nonneg roundoff_le_one (Nat.cast_nonneg _)
      (by decide)).add hnear_fraction
  exact hnear_sum.trans roundoff_nonneg roundoff_le_one (Value.near_of_toRat_round hsum
    (normal_of_near hnear_sum (by decide) (eq_zero_or_nanosecond_le d)))

/-- **A multiple of a duration has five errors.** -/
theorem near_timesSecs {d index : ℕ} {q : ℚ} (h : timesSecs d index = some q) :
    Near roundoff 5 (index * (d / 10 ^ 9)) q := by
  obtain ⟨factor, secs, hfactor, hsecs, hround⟩ := Value.toRat_mul h
  have hnear : Near roundoff 4 (index * (d / 10 ^ 9)) (factor * secs) :=
    (near_ofNat hfactor).mul roundoff_nonneg roundoff_le_one (near_asSecsF64 hsecs)
      index.cast_nonneg (by positivity)
  refine hnear.trans roundoff_nonneg roundoff_le_one (Value.near_of_toRat_round hround
    (normal_of_near hnear le_rfl ?_))
  have hnanos := eq_zero_or_nanosecond_le (index * d)
  rwa [Nat.cast_mul, mul_div_assoc] at hnanos

/-- The nanoseconds of a multiple of a duration: it is off by half a nanosecond, and by a share of
its length that stays below `2 ^ -50`. -/
theorem abs_timesNanos_sub_le {d index : ℕ} {q : ℚ} (h : timesSecs d index = some q) :
    |(roundHalfEven (q * 10 ^ 9) : ℚ) - index * d| ≤ 1 / 2 + index * d / 2 ^ 50 := by
  have hhalf := abs_roundHalfEven_sub_le (q * 10 ^ 9)
  have hexact : (0 : ℚ) ≤ index * (d / 10 ^ 9) := by positivity
  have herrors := (near_timesSecs h).abs_sub_le roundoff_nonneg roundoff_le_one hexact
  have hfive : (1 + roundoff) ^ 5 - 1 ≤ (1 / 2 ^ 50 : ℚ) := by
    norm_num [Format.roundoff, Format.binary64]
  have hrelative : |q - (index * (d / 10 ^ 9) : ℚ)| ≤ index * (d / 10 ^ 9) * (1 / 2 ^ 50) :=
    herrors.trans (mul_le_mul_of_nonneg_left hfive hexact)
  obtain ⟨hhalf_lower, hhalf_upper⟩ := abs_le.1 hhalf
  obtain ⟨hlower, hupper⟩ := abs_le.1 hrelative
  have hscale : (index * (d / 10 ^ 9) : ℚ) * 10 ^ 9 = index * d := by
    rw [mul_assoc, div_mul_cancel₀ _ (by norm_num)]
  refine abs_le.2 ⟨?_, ?_⟩ <;> linarith

end Clock
