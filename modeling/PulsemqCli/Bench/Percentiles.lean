import PulsemqCli.Bench.Samples
import PulsemqCli.Library.OrderStatistics
import Mathlib.Algebra.Order.BigOperators.Group.List
import Mathlib.Data.List.GetD

/-!
# What a summary says

The percentiles are nearest-rank quantiles, they are ordered between the least and the greatest
sample, and so is the mean. Samples are 64 bits wide and there are fewer than `2 ^ 64` of them, so
that their sum fits in 128 bits and their mean in 64.

The source computes a percentile's index with a ceiling in floating point, and the model with the
rational that the percentile is written as. `percentile_isQuantile` is about any share between 0 and
1, and the three that are reported are instances.

The mean is a sum in 128 bits, divided. That the sum does not overflow on its way is a matter of how
many samples there are, and is an assumption on their number and width alone; it is met by every
list of `u64` samples that fits in memory.
-/

namespace PulsemqCli

namespace Bench

open OrderStatistics

/-! ### Percentiles -/

/-- **A percentile of a sorted list is its nearest-rank quantile.** -/
theorem percentile_isQuantile {values : List ℕ} (hsorted : values.Pairwise (· ≤ ·))
    (hvalues : values ≠ []) {p : ℚ} (hpos : 0 < p) (hle : p ≤ 1) :
    IsQuantile values p (percentile values p) := by
  have hlength : 0 < values.length := List.length_pos_iff.2 hvalues
  have hrank : 0 < ⌈p * values.length⌉₊ := Nat.ceil_pos.2 (by positivity)
  have hrank' : ⌈p * values.length⌉₊ ≤ values.length := by
    refine Nat.ceil_le.2 ?_
    calc p * values.length ≤ 1 * values.length := by gcongr
      _ = values.length := one_mul _
  have hindex : min (⌈p * values.length⌉₊ - 1) (values.length - 1) = ⌈p * values.length⌉₊ - 1 :=
    min_eq_left (by omega)
  have hbound : ⌈p * values.length⌉₊ - 1 < values.length := by omega
  have hentry : percentile values p = values[⌈p * values.length⌉₊ - 1] := by
    simp only [percentile, hindex]
    exact List.getD_eq_getElem _ _ hbound
  rw [hentry]
  exact isQuantile_getElem hsorted hbound (by omega)

/-! ### The mean -/

/-- `values.iter().map(|v| *v as u128).sum()`, where `none` is an overflow. -/
def sumU128 (values : List ℕ) : Option ℕ :=
  values.foldl (fun sum v ↦ sum.bind fun sum ↦ if sum + v < 2 ^ 128 then some (sum + v) else none)
    (some 0)

/-- A sum that fits at its end fits on its way. -/
theorem sumU128_eq {values : List ℕ} (h : values.sum < 2 ^ 128) :
    sumU128 values = some values.sum := by
  have hfoldl : ∀ (values : List ℕ) (sum : ℕ), sum + values.sum < 2 ^ 128 →
      values.foldl (fun sum v ↦ sum.bind fun sum ↦
        if sum + v < 2 ^ 128 then some (sum + v) else none) (some sum) =
      some (sum + values.sum) := by
    intro values
    induction values with
    | nil => exact fun _ _ ↦ rfl
    | cons v rest ih =>
      intro sum hsum
      rw [List.sum_cons] at hsum
      rw [List.foldl_cons, Option.bind_some, if_pos (by omega), ih _ (by omega), List.sum_cons,
        Nat.add_assoc]
  rw [sumU128, hfoldl values 0 (by omega), Nat.zero_add]

/-- Values of 64 bits, fewer than `2 ^ 64` of them, sum up to 128 bits. -/
theorem sum_lt_of_bounded {values : List ℕ} (hlength : values.length < 2 ^ 64)
    (hbound : ∀ v ∈ values, v < 2 ^ 64) : values.sum < 2 ^ 128 := by
  calc values.sum ≤ values.length • (2 ^ 64 - 1) :=
        List.sum_le_card_nsmul _ _ fun v hv ↦ Nat.le_sub_one_of_lt (hbound v hv)
    _ = values.length * (2 ^ 64 - 1) := rfl
    _ ≤ 2 ^ 64 * (2 ^ 64 - 1) := Nat.mul_le_mul_right _ hlength.le
    _ < 2 ^ 128 := by norm_num

/-- The mean is between two bounds of the values. -/
theorem mean_mem {values : List ℕ} (hvalues : values ≠ []) {a b : ℕ} (ha : ∀ v ∈ values, a ≤ v)
    (hb : ∀ v ∈ values, v ≤ b) :
    a ≤ values.sum / values.length ∧ values.sum / values.length ≤ b := by
  have hlength : 0 < values.length := List.length_pos_iff.2 hvalues
  constructor
  · rw [Nat.le_div_iff_mul_le hlength, Nat.mul_comm]
    exact List.card_nsmul_le_sum _ _ ha
  · refine Nat.div_le_of_le_mul ?_
    exact List.sum_le_card_nsmul _ _ hb

/-! ### The summary -/

/-- The summary describes the values: nearest-rank percentiles between the extremes, and the
mean. -/
structure Summary.Describes (s : Summary) (values : List ℕ) : Prop where
  count : s.count = values.length
  p50 : IsQuantile values (1 / 2) s.p50Ns
  p95 : IsQuantile values (19 / 20) s.p95Ns
  p99 : IsQuantile values (99 / 100) s.p99Ns
  min_le_p50 : s.minNs ≤ s.p50Ns
  p50_le_p95 : s.p50Ns ≤ s.p95Ns
  p95_le_p99 : s.p95Ns ≤ s.p99Ns
  p99_le_max : s.p99Ns ≤ s.maxNs
  mean : s.meanNs = values.sum / values.length
  min_le_mean : s.minNs ≤ s.meanNs
  mean_le_max : s.meanNs ≤ s.maxNs

/-- The first and the last value of a sorted list are its extremes. -/
theorem extremes_of_sorted {values : List ℕ} (hsorted : values.Pairwise (· ≤ ·)) {v : ℕ}
    (hv : v ∈ values) : values.getD 0 0 ≤ v ∧ v ≤ values.getD (values.length - 1) 0 := by
  obtain ⟨i, hi, rfl⟩ := List.getElem_of_mem hv
  have hle : ∀ j k, (hj : j < values.length) → (hk : k < values.length) → j ≤ k →
      values[j] ≤ values[k] := by
    intro j k hj hk hjk
    rcases Nat.lt_or_eq_of_le hjk with hlt | rfl
    · exact List.pairwise_iff_getElem.1 hsorted j k hj hk hlt
    · exact le_refl _
  rw [List.getD_eq_getElem _ _ (by omega), List.getD_eq_getElem _ _ (by omega)]
  exact ⟨hle _ _ _ _ (Nat.zero_le i), hle _ _ _ _ (by omega)⟩

/-- The statistics of sorted values describe them. -/
theorem describes_statistics {sorted : List ℕ} (hsorted : sorted.Pairwise (· ≤ ·))
    (hvalues : sorted ≠ []) (hmean : sorted.sum / sorted.length < 2 ^ 64) :
    (Samples.statistics sorted).Describes sorted := by
  have h50 : IsQuantile sorted (1 / 2) (Samples.statistics sorted).p50Ns := by
    rw [show (1 / 2 : ℚ) = 50 / 100 by norm_num]
    exact percentile_isQuantile hsorted hvalues (by norm_num) (by norm_num)
  have h95 : IsQuantile sorted (19 / 20) (Samples.statistics sorted).p95Ns := by
    rw [show (19 / 20 : ℚ) = 95 / 100 by norm_num]
    exact percentile_isQuantile hsorted hvalues (by norm_num) (by norm_num)
  have h99 : IsQuantile sorted (99 / 100) (Samples.statistics sorted).p99Ns :=
    percentile_isQuantile hsorted hvalues (by norm_num) (by norm_num)
  have hmin : ∀ v ∈ sorted, (Samples.statistics sorted).minNs ≤ v :=
    fun _ hv ↦ (extremes_of_sorted hsorted hv).1
  have hmax : ∀ v ∈ sorted, v ≤ (Samples.statistics sorted).maxNs :=
    fun _ hv ↦ (extremes_of_sorted hsorted hv).2
  have hmeanNs : (Samples.statistics sorted).meanNs = sorted.sum / sorted.length :=
    Nat.mod_eq_of_lt hmean
  have hbetween := mean_mem hvalues hmin hmax
  rw [← hmeanNs] at hbetween
  exact {
    count := rfl
    p50 := h50
    p95 := h95
    p99 := h99
    min_le_p50 := hmin _ h50.mem
    p50_le_p95 := h50.mono h95 (by norm_num)
    p95_le_p99 := h95.mono h99 (by norm_num)
    p99_le_max := hmax _ h99.mem
    mean := hmeanNs
    min_le_mean := hbetween.1
    mean_le_max := hbetween.2 }

/-- A summary describes values in any order. -/
theorem Summary.Describes.perm {s : Summary} {values values' : List ℕ} (h : s.Describes values)
    (hperm : values.Perm values') : s.Describes values' where
  count := h.count.trans hperm.length_eq
  p50 := h.p50.perm hperm
  p95 := h.p95.perm hperm
  p99 := h.p99.perm hperm
  min_le_p50 := h.min_le_p50
  p50_le_p95 := h.p50_le_p95
  p95_le_p99 := h.p95_le_p99
  p99_le_max := h.p99_le_max
  mean := by rw [h.mean, hperm.sum_eq, hperm.length_eq]
  min_le_mean := h.min_le_mean
  mean_le_max := h.mean_le_max

/-- **Percentiles are exact, and the summary is ordered.** Of samples that are 64 bits wide, fewer
than `2 ^ 64` of them, a percentile is the nearest-rank quantile if they are sorted, and however
they are ordered the summary describes them: the sum does not overflow, and its mean loses
nothing. -/
theorem summary_exact {values : List ℕ} (hvalues : values ≠ []) (hlength : values.length < 2 ^ 64)
    (hbound : ∀ v ∈ values, v < 2 ^ 64) :
    (values.Pairwise (· ≤ ·) → ∀ p ∈ [1 / 2, 19 / 20, 99 / 100],
      IsQuantile values p (percentile values p)) ∧
    ∀ flag, (Samples.mk values flag).Consistent → ∃ s sorted,
      (Samples.mk values flag).summary = (some s, ⟨sorted, true⟩) ∧ sorted.Perm values ∧
      sumU128 sorted = some values.sum ∧ values.sum / values.length < 2 ^ 64 ∧
      s.Describes values := by
  refine ⟨fun hsorted p hp ↦ ?_, fun flag hconsistent ↦ ?_⟩
  · simp only [List.mem_cons, List.not_mem_nil, or_false] at hp
    rcases hp with rfl | rfl | rfl <;>
      exact percentile_isQuantile hsorted hvalues (by norm_num) (by norm_num)
  · let sorted := (values : Multiset ℕ).sort
    have hperm : sorted.Perm values := Samples.sort_perm values
    have hsorted : sorted ≠ [] := fun hnil ↦ hvalues (List.perm_nil.1 (hnil ▸ hperm.symm))
    have hsum : sorted.sum = values.sum := hperm.sum_eq
    have hmean : values.sum / values.length < 2 ^ 64 := by
      have hle := (mean_mem hvalues (fun _ _ ↦ Nat.zero_le _)
        fun v hv ↦ Nat.le_sub_one_of_lt (hbound v hv)).2
      omega
    have hdescribes : (Samples.statistics sorted).Describes sorted :=
      describes_statistics (Samples.pairwise_sort values) hsorted (by rwa [hsum, hperm.length_eq])
    refine ⟨_, sorted, hconsistent.summary_of_ne_nil hvalues, hperm, ?_, hmean,
      hdescribes.perm hperm⟩
    rw [← hsum]
    exact sumU128_eq (hsum ▸ sum_lt_of_bounded hlength hbound)

/-- Four samples, not sorted yet. -/
theorem summary_exact_four : ∃ s sorted,
    (Samples.mk [30, 10, 20, 40] false).summary = (some s, ⟨sorted, true⟩) ∧
      s.Describes [30, 10, 20, 40] := by
  have hvalues : ([30, 10, 20, 40] : List ℕ) ≠ [] := by decide
  obtain ⟨s, sorted, hsummary, -, -, -, h⟩ :=
    (summary_exact hvalues (by decide) (by decide)).2 false fun h ↦ absurd h Bool.false_ne_true
  exact ⟨s, sorted, hsummary, h⟩

end Bench

end PulsemqCli
