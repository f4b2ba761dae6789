import Mathlib.Data.List.Basic
import Mathlib.Algebra.Order.Ring.Nat

/-!
# Big-endian byte strings

`toBeBytes k n` writes the last `k` base-256 digits of `n`, most significant first, and
`fromBeBytes` reads a byte string back as a number.

Widths are in bytes and not fixed, so that one pair of lemmas serves all the fields of a header. The
two directions differ: a number is read back modulo its width, and a byte string is read back as it
is.
-/

namespace BigEndian

/-- The last `k` base-256 digits of `n`, most significant first. -/
def toBeBytes : ℕ → ℕ → List UInt8
  | 0, _ => []
  | k + 1, n => UInt8.ofNat (n / 256 ^ k) :: toBeBytes k n

/-- The number a byte string spells, most significant byte first. -/
def fromBeBytes : List UInt8 → ℕ
  | [] => 0
  | b :: bs => b.toNat * 256 ^ bs.length + fromBeBytes bs

@[simp]
theorem length_toBeBytes (k n : ℕ) : (toBeBytes k n).length = k := by
  induction k with
  | zero => rfl
  | succ k ih => simp [toBeBytes, ih]

/-- Reading back what was written keeps the number modulo the width. -/
theorem fromBeBytes_toBeBytes (k n : ℕ) : fromBeBytes (toBeBytes k n) = n % 256 ^ k := by
  induction k with
  | zero => simp [toBeBytes, fromBeBytes, Nat.mod_one]
  | succ k ih =>
    have hdigit : (UInt8.ofNat (n / 256 ^ k)).toNat = n / 256 ^ k % 256 := by simp
    rw [toBeBytes, fromBeBytes, length_toBeBytes, ih, hdigit, Nat.pow_succ, Nat.mod_mul,
      Nat.add_comm, Nat.mul_comm]

theorem fromBeBytes_lt (bs : List UInt8) : fromBeBytes bs < 256 ^ bs.length := by
  induction bs with
  | nil => exact Nat.one_pos
  | cons b bs ih =>
    have hb : b.toNat + 1 ≤ 256 := b.toNat_lt
    calc fromBeBytes (b :: bs)
        < b.toNat * 256 ^ bs.length + 256 ^ bs.length := Nat.add_lt_add_left ih _
      _ = (b.toNat + 1) * 256 ^ bs.length := (Nat.succ_mul _ _).symm
      _ ≤ 256 * 256 ^ bs.length := Nat.mul_le_mul_right _ hb
      _ = 256 ^ (b :: bs).length := (Nat.pow_succ' ..).symm

/-- The digits beyond the width are not written. -/
theorem toBeBytes_mul_add (k m n : ℕ) : toBeBytes k (m * 256 ^ k + n) = toBeBytes k n := by
  induction k generalizing m with
  | zero => rfl
  | succ k ih =>
    have hsplit : m * 256 ^ (k + 1) + n = m * 256 * 256 ^ k + n := by
      rw [Nat.pow_succ', Nat.mul_assoc]
    have hdigit : (m * 256 * 256 ^ k + n) / 256 ^ k = m * 256 + n / 256 ^ k := by
      rw [Nat.add_comm, Nat.add_mul_div_right _ _ (Nat.pow_pos (by decide)), Nat.add_comm]
    have hbyte : UInt8.ofNat (m * 256 + n / 256 ^ k) = UInt8.ofNat (n / 256 ^ k) := by
      refine UInt8.toNat_inj.1 ?_
      simp
    rw [hsplit, toBeBytes, toBeBytes, hdigit, hbyte, ih]

/-- **A byte string is written back as it was read.** -/
theorem toBeBytes_fromBeBytes (bs : List UInt8) : toBeBytes bs.length (fromBeBytes bs) = bs := by
  induction bs with
  | nil => rfl
  | cons b bs ih =>
    have hdigit : fromBeBytes (b :: bs) / 256 ^ bs.length = b.toNat := by
      rw [fromBeBytes, Nat.add_comm, Nat.add_mul_div_right _ _ (Nat.pow_pos (by decide)),
        Nat.div_eq_of_lt (fromBeBytes_lt bs), Nat.zero_add]
    rw [List.length_cons, toBeBytes, hdigit, UInt8.ofNat_toNat, fromBeBytes, toBeBytes_mul_add, ih]

end BigEndian
