import PulsemqCli.Protocol
import Mathlib.Algebra.BigOperators.Group.Finset.Piecewise
import Mathlib.Data.Finmap
import Mathlib.Data.Rat.Floor

/-!
# Samples, totals and the report of a benchmark

What the tasks of a run collect, and what is reported of it. Latencies are in nanoseconds, and a
percentile's `p` is the rational it is written as. The times of the report and its counts of
what was received are left out; the rate of what was published is in `Bench.Throughput`.

`summary` returns the samples as well, since sorting them is a side effect that later calls see. A
percentile of no samples is not defined, and none is computed: the summary of an empty vector is
`none`. `tally` keeps the refusals by their code; only their number matters to what is proved here,
and `refusals` is it.
-/

namespace PulsemqCli

namespace Bench

open Protocol

/-! ### Latency samples -/

structure Samples where
  values : List ℕ
  sorted : Bool
  deriving DecidableEq, Repr

structure Summary where
  count : ℕ
  minNs : ℕ
  p50Ns : ℕ
  p95Ns : ℕ
  p99Ns : ℕ
  maxNs : ℕ
  meanNs : ℕ
  deriving DecidableEq, Repr

/-- Nearest-rank percentile of a sorted list that is not empty. -/
def percentile (sorted : List ℕ) (p : ℚ) : ℕ :=
  let rank := ⌈p * sorted.length⌉₊
  let index := min (rank - 1) (sorted.length - 1)
  sorted.getD index 0

namespace Samples

def new : Samples where
  values := []
  sorted := false

def record (samples : Samples) (nanos : ℕ) : Samples where
  values := samples.values ++ [nanos]
  sorted := false

/-- Absorb another task's samples. -/
def merge (samples other : Samples) : Samples where
  values := samples.values ++ other.values
  sorted := false

/-- `Samples::summary`, which sorts the values once and reads every statistic off them. -/
def summary (samples : Samples) : Option Summary × Samples :=
  if samples.values = [] then (none, samples)
  else
    let sorted := if samples.sorted then samples.values else samples.values.mergeSort
    (some {
      count := sorted.length
      minNs := sorted.getD 0 0
      p50Ns := percentile sorted (50 / 100)
      p95Ns := percentile sorted (95 / 100)
      p99Ns := percentile sorted (99 / 100)
      maxNs := sorted.getD (sorted.length - 1) 0
      meanNs := sorted.sum / sorted.length % 2 ^ 64 }, ⟨sorted, true⟩)

/-- There is nothing to summarize exactly if nothing was recorded. -/
theorem summary_eq_none {samples : Samples} : samples.summary.1 = none ↔ samples.values = [] := by
  unfold summary
  split <;> simp [*]

end Samples

/-! ### Totals -/

/-- The refusals by Reason Code, as `record_refusal` counts them. -/
def tally (codes : List ReasonCode) : Finmap fun _ : UInt8 ↦ ℕ :=
  codes.foldl (fun refused code ↦
    refused.insert code.asU8 ((refused.lookup code.asU8).getD 0 + 1)) ∅

/-- All the refusals that are counted. -/
def refusals (refused : Finmap fun _ : UInt8 ↦ ℕ) : ℕ :=
  ∑ code ∈ refused.keys, (refused.lookup code).getD 0

theorem refusals_insert (refused : Finmap fun _ : UInt8 ↦ ℕ) (code : UInt8) :
    refusals (refused.insert code ((refused.lookup code).getD 0 + 1)) = refusals refused + 1 := by
  have hkeys : (refused.insert code ((refused.lookup code).getD 0 + 1)).keys =
      insert code refused.keys := by
    ext code'
    rw [Finmap.mem_keys, Finmap.mem_insert, Finset.mem_insert, Finmap.mem_keys]
  have hlookup : ∀ code', ((refused.insert code ((refused.lookup code).getD 0 + 1)).lookup
      code').getD 0 = (refused.lookup code').getD 0 + if code' = code then 1 else 0 := by
    intro code'
    by_cases h : code' = code
    · rw [h, Finmap.lookup_insert, if_pos rfl]
      rfl
    · rw [Finmap.lookup_insert_of_ne _ h, if_neg h]
      rfl
  have habsent : code ∉ refused.keys → (refused.lookup code).getD 0 = 0 := by
    intro hmem
    rw [Finmap.lookup_eq_none.2 fun h ↦ hmem (Finmap.mem_keys.2 h)]
    rfl
  calc refusals (refused.insert code ((refused.lookup code).getD 0 + 1))
      = ∑ code' ∈ insert code refused.keys,
          ((refused.lookup code').getD 0 + if code' = code then 1 else 0) := by
        rw [refusals, hkeys]
        exact Finset.sum_congr rfl fun code' _ ↦ hlookup code'
    _ = refusals refused + 1 := by
        rw [Finset.sum_add_distrib, Finset.sum_insert_of_eq_zero_if_notMem habsent,
          Finset.sum_ite_eq', if_pos (Finset.mem_insert_self ..)]
        rfl

/-- Every refusal is counted once. -/
theorem refusals_tally (codes : List ReasonCode) : refusals (tally codes) = codes.length := by
  have hfoldl : ∀ refused, refusals (codes.foldl (fun refused code ↦
      refused.insert code.asU8 ((refused.lookup code.asU8).getD 0 + 1)) refused) =
      refusals refused + codes.length := by
    induction codes with
    | nil => exact fun _ ↦ rfl
    | cons code rest ih =>
      intro refused
      rw [List.foldl_cons, ih, refusals_insert, List.length_cons]
      omega
  have hnone : refusals ∅ = 0 := by
    rw [refusals, Finmap.keys_empty, Finset.sum_empty]
  rw [tally, hfoldl, hnone, Nat.zero_add]

/-- What the counters of a run come to. -/
structure Totals where
  published : ℕ
  acknowledged : ℕ
  bytesSent : ℕ
  publishErrors : ℕ
  refused : Finmap fun _ : UInt8 ↦ ℕ

/-! ### The report -/

structure Report where
  totals : Totals
  taskFailures : List String
  ack : Option Summary
  endToEnd : Option Summary
  endToEndDisabled : Bool

/-- A run is a success only when nothing failed and nothing was refused. -/
def Report.success (report : Report) : Bool :=
  report.taskFailures.isEmpty && report.totals.refused = ∅ && report.totals.publishErrors = 0

/-- One handle is joined. -/
def joinTask (joined : Samples × List (Except Error Unit)) :
    Except Error (List ℕ) → Samples × List (Except Error Unit)
  | .ok samples => (joined.1.merge ⟨samples, false⟩, joined.2 ++ [.ok ()])
  | .error e => (joined.1, joined.2 ++ [.error e])

/-- The samples of the tasks that finished, and what each task came to. -/
def joinTasks (results : List (Except Error (List ℕ))) : Samples × List (Except Error Unit) :=
  results.foldl joinTask (.new, [])

/-- The failures among the results, labelled so that a reader knows which connection died. -/
def collectFailures (display : Error → String) (results : List (Except Error Unit))
    (role : String) : List String :=
  results.zipIdx.filterMap fun (result, index) ↦
    match result with
    | .ok () => none
    | .error e => some (role ++ " " ++ toString index ++ ": " ++ display e)

theorem foldl_joinTask_outcomes (results : List (Except Error (List ℕ)))
    (joined : Samples × List (Except Error Unit)) :
    (results.foldl joinTask joined).2 = joined.2 ++ results.map (·.map fun _ ↦ ()) := by
  induction results generalizing joined with
  | nil => exact (List.append_nil _).symm
  | cons result rest ih =>
    rw [List.foldl_cons, ih]
    rcases result with e | samples
    · exact List.append_assoc _ _ _
    · exact List.append_assoc _ _ _

/-- The outcomes are the results without their samples. -/
theorem joinTasks_outcomes (results : List (Except Error (List ℕ))) :
    (joinTasks results).2 = results.map (·.map fun _ ↦ ()) :=
  foldl_joinTask_outcomes results _

/-- A task that failed is named. -/
theorem mem_collectFailures {display : Error → String} {results : List (Except Error (List ℕ))}
    {role : String} {index : ℕ} {e : Error} (h : results[index]? = some (.error e)) :
    role ++ " " ++ toString index ++ ": " ++ display e ∈
      collectFailures display (joinTasks results).2 role := by
  rw [joinTasks_outcomes, collectFailures, List.mem_filterMap]
  refine ⟨(.error e, index), ?_, rfl⟩
  rw [List.mem_zipIdx_iff_getElem?, List.getElem?_map, h]
  rfl

theorem foldl_joinTask_values {results : List (Except Error (List ℕ))}
    (h : ∀ samples, .ok samples ∈ results → samples = [])
    {joined : Samples × List (Except Error Unit)} (hjoined : joined.1.values = []) :
    (results.foldl joinTask joined).1.values = [] := by
  induction results generalizing joined with
  | nil => exact hjoined
  | cons result rest ih =>
    refine ih (fun samples hmem ↦ h samples (List.mem_cons_of_mem _ hmem)) ?_
    rcases result with e | samples
    · exact hjoined
    · rw [h samples List.mem_cons_self]
      exact (List.append_nil _).trans hjoined

/-- The merged samples are empty if those of every task that finished are. -/
theorem joinTasks_values {results : List (Except Error (List ℕ))}
    (h : ∀ samples, .ok samples ∈ results → samples = []) : (joinTasks results).1.values = [] :=
  foldl_joinTask_values h rfl

end Bench

end PulsemqCli
