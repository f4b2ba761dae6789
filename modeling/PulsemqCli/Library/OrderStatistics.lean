import Mathlib.Data.List.Count
import Mathlib.Data.List.Pairwise
import Mathlib.Data.Rat.Floor

/-!
# Order statistics

The nearest-rank quantile of a list, by counting: at least a share `p` of the entries is at most
the quantile, and less than that share is at most any smaller entry. In a sorted list it is the
entry at the index that has the rank's number of entries up to it. Quantiles grow with their share.

The definition by counting does not mention an order of the list, so it is the same for a list and
what it is sorted to (`IsQuantile.perm`). The value it describes is unique wherever it exists, being
an entry that cannot be moved up or down without losing one of the two conditions; that is why a
program that sorts and indexes can be measured by it.
-/

namespace OrderStatistics

variable {α : Type*} [LinearOrder α] {xs : List α}

/-- How many entries are at most `v`. -/
def rank (xs : List α) (v : α) : ℕ :=
  xs.countP (· ≤ v)

theorem rank_perm {ys : List α} (h : xs.Perm ys) (v : α) : rank xs v = rank ys v :=
  h.countP_eq _

/-- The entries up to an index of a sorted list are at most the entry there. -/
theorem lt_rank_getElem (h : xs.Pairwise (· ≤ ·)) {i : ℕ} (hi : i < xs.length) :
    i < rank xs xs[i] := by
  have hall : ∀ v ∈ xs.take (i + 1), decide (v ≤ xs[i]) = true := by
    intro v hv
    obtain ⟨j, hj, rfl⟩ := List.mem_take_iff_getElem.1 hv
    rw [decide_eq_true_iff]
    rcases Nat.lt_or_ge j i with hlt | hge
    · exact List.pairwise_iff_getElem.1 h j i _ hi hlt
    · obtain rfl : j = i := by omega
      exact le_refl _
  calc i < (xs.take (i + 1)).length := by
        rw [List.length_take]
        omega
    _ = (xs.take (i + 1)).countP (· ≤ xs[i]) := (List.countP_eq_length.2 hall).symm
    _ ≤ rank xs xs[i] := (List.take_sublist ..).countP_le

/-- Only the entries before an index of a sorted list can be less than the entry there. -/
theorem rank_le_of_lt_getElem (h : xs.Pairwise (· ≤ ·)) {i : ℕ} (hi : i < xs.length) {w : α}
    (hw : w < xs[i]) : rank xs w ≤ i := by
  have hnone : ∀ v ∈ xs.drop i, ¬decide (v ≤ w) = true := by
    intro v hv
    obtain ⟨j, hj, rfl⟩ := List.mem_drop_iff_getElem.1 hv
    rw [decide_eq_true_iff, not_le]
    refine hw.trans_le ?_
    rcases Nat.eq_zero_or_pos j with rfl | hpos
    · exact le_refl _
    · exact List.pairwise_iff_getElem.1 h i (i + j) hi (by omega) (by omega)
  calc rank xs w = (xs.take i ++ xs.drop i).countP (· ≤ w) := by rw [List.take_append_drop, rank]
    _ = (xs.take i).countP (· ≤ w) := by
        rw [List.countP_append, List.countP_eq_zero.2 hnone, Nat.add_zero]
    _ ≤ (xs.take i).length := List.countP_le_length
    _ ≤ i := List.length_take_le ..

/-! ### Quantiles -/

/-- `v` is the nearest-rank quantile of `xs` for the share `p`. -/
structure IsQuantile (xs : List α) (p : ℚ) (v : α) : Prop where
  mem : v ∈ xs
  /-- At least the share of the entries is at most `v`. -/
  enough : ⌈p * xs.length⌉₊ ≤ rank xs v
  /-- Less than the share is at most any smaller entry. -/
  least : ∀ w ∈ xs, w < v → (rank xs w : ℚ) < p * xs.length

variable {p q : ℚ} {v w : α}

/-- **The entry at the rank of a sorted list is the quantile.** -/
theorem isQuantile_getElem (h : xs.Pairwise (· ≤ ·)) {i : ℕ} (hi : i < xs.length)
    (hrank : ⌈p * xs.length⌉₊ = i + 1) : IsQuantile xs p xs[i] where
  mem := List.getElem_mem hi
  enough := by
    rw [hrank]
    exact lt_rank_getElem h hi
  least w _ hw := by
    have hle : rank xs w ≤ i := rank_le_of_lt_getElem h hi hw
    exact Nat.lt_ceil.1 (by omega)

/-- A quantile for a larger share is not smaller. -/
theorem IsQuantile.mono (h : IsQuantile xs p v) (h' : IsQuantile xs q w) (hpq : p ≤ q) :
    v ≤ w := by
  by_contra hlt
  have hleast : (rank xs w : ℚ) < p * xs.length := h.least w h'.mem (not_le.1 hlt)
  have henough : q * xs.length ≤ rank xs w := Nat.ceil_le.1 h'.enough
  have hshare : p * xs.length ≤ q * xs.length := by gcongr
  exact absurd (hleast.trans_le (hshare.trans henough)) (lt_irrefl _)

/-- Quantiles do not depend on the order of the entries. -/
theorem IsQuantile.perm {ys : List α} (h : IsQuantile xs p v) (hperm : xs.Perm ys) :
    IsQuantile ys p v where
  mem := hperm.mem_iff.1 h.mem
  enough := by
    rw [← hperm.length_eq, ← rank_perm hperm]
    exact h.enough
  least w hw hlt := by
    rw [← hperm.length_eq, ← rank_perm hperm]
    exact h.least w (hperm.mem_iff.2 hw) hlt

end OrderStatistics
