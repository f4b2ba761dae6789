import Mathlib.Algebra.BigOperators.Ring.Finset
import Mathlib.Algebra.BigOperators.Fin
import Mathlib.Algebra.Module.Defs

/-!
# Shares of a total

A total of `n` is divided among `p` parties, numbered from 0: each gets the quotient, and the first
parties get one more each until the remainder is used up. A party whose number is taken modulo `w`
gets the share of another party, and `within_iff` says when that can be more than its own.

Where the numbers taken modulo `w` repeat, some share is used in place of another, and the sum is
not the total any more unless the two are the same. With an even division all shares are equal, and
it does not matter whose is used; this is the second case of `within_iff`.
-/

namespace Shares

/-- The share of the party `i`. -/
def share (n p i : ℕ) : ℕ :=
  n / p + if i < n % p then 1 else 0

variable {n p w : ℕ}

/-- **The shares add up to the total.** -/
theorem sum_share (hp : 0 < p) : ∑ i : Fin p, share n p i = n := by
  have hfilter : {i ∈ Finset.range p | i < n % p} = Finset.range (n % p) := by
    ext i
    have := Nat.mod_lt n hp
    simp only [Finset.mem_filter, Finset.mem_range]
    omega
  calc ∑ i : Fin p, share n p i
      = ∑ i ∈ Finset.range p, share n p i := Fin.sum_univ_eq_sum_range _ p
    _ = p * (n / p) + n % p := by
        simp only [share, Finset.sum_add_distrib, Finset.sum_const, Finset.card_range, smul_eq_mul,
          ← Finset.card_filter, hfilter]
    _ = n := Nat.div_add_mod n p

/-- The first parties have the most. -/
theorem share_antitone (n p : ℕ) : Antitone (share n p) := by
  intro i j hij
  unfold share
  split <;> split <;> omega

/-- No share is more than one ahead of another. -/
theorem share_le_succ (n p i j : ℕ) : share n p i ≤ share n p j + 1 := by
  unfold share
  split <;> split <;> omega

/-- Where the total is divided evenly all shares are the same. -/
theorem share_of_mod_eq_zero (h : n % p = 0) (i : ℕ) : share n p i = n / p := by
  simp [share, h]

/-- **No party gets more than its share by a number taken modulo `w`** exactly if all numbers are
below `w` or the total is divided evenly. -/
theorem within_iff (hw : 0 < w) :
    (∀ i < p, share n p (i % w) ≤ share n p i) ↔ p ≤ w ∨ n % p = 0 := by
  constructor
  · intro h
    by_contra hnot
    obtain ⟨hwide, hrest⟩ := not_or.1 hnot
    -- The first party that is both outside the range of numbers and without an extra one.
    let i := max w (n % p)
    have hrest_lt : n % p < p := Nat.mod_lt n (by omega)
    have hi : i < p := max_lt (not_le.1 hwide) hrest_lt
    have hmod : i % w < n % p := by
      rcases le_total (n % p) w with hle | hle
      · rw [show i = w from max_eq_left hle, Nat.mod_self]
        omega
      · rw [show i = n % p from max_eq_right hle]
        rcases hle.eq_or_lt with heq | hlt
        · rw [← heq, Nat.mod_self]
          exact hw
        · exact (Nat.mod_lt _ hw).trans hlt
    have hshare := h i hi
    have hfirst : share n p (i % w) = n / p + 1 := congrArg _ (if_pos hmod)
    have hlast : share n p i = n / p := congrArg _ (if_neg (not_lt.2 (le_max_right w (n % p))))
    rw [hfirst, hlast] at hshare
    omega
  · rintro (hle | heven) i hi
    · rw [Nat.mod_eq_of_lt (by omega)]
    · rw [share_of_mod_eq_zero heven, share_of_mod_eq_zero heven]

end Shares
