import PulsemqCli.Bench.Stats
import Mathlib.Data.Multiset.Sort

/-!
# What a summary depends on

Each task of a run collects its samples, the vectors of the tasks are merged as the tasks are
joined, and a vector is sorted where it is summarized. `bags` is what all this comes to: a bag of
samples, which has no order and no flag. A program that calls `Samples` gets the replies it would
get from bags, whatever it calls and in whatever order.

`Collector` is the interface of `Samples`, without a word about sorting. `vectors` implements it as
the source does, with the flag that says whether the vector is sorted already; `bags` implements it
by multisets. A program is a list of calls on named variables, and `Refines` asks that related
variables are taken to related variables with the same reply by every call. The step and the run
lemma are then about any two collectors, and `refines_bags` is where the source's code comes in.

The flag could be wrong, and then a summary would read percentiles off an unsorted vector.
`Consistent` is the invariant that it is not: recording and merging reset it.

At the end of a run the tasks' vectors are merged in the order of the tasks, and those of failed
tasks are left out. `collecting_exact` puts this together with the programs; what a summary is then
depends on the samples as a multiset only.
-/

namespace PulsemqCli

namespace Bench

namespace Samples

def len (samples : Samples) : ℕ :=
  samples.values.length

/-- The invariant of the representation: a vector flagged as sorted is ascending. -/
def Consistent (samples : Samples) : Prop :=
  samples.sorted = true → samples.values.Pairwise (· ≤ ·)

/-! ### The summary of a bag -/

/-- The summary of the samples of a bag, sorted. -/
def summaryOf (bag : Multiset ℕ) : Option Summary :=
  (summary ⟨bag.sort, true⟩).1

/-- What a vector is sorted to, once it is flagged or not. -/
theorem Consistent.ordered {samples : Samples} (h : samples.Consistent) :
    (if samples.sorted then samples.values else samples.values.mergeSort) =
      (samples.values : Multiset ℕ).sort := by
  rw [Multiset.coe_sort]
  by_cases hsorted : samples.sorted = true
  · rw [if_pos hsorted, List.mergeSort_of_pairwise]
    simpa using h hsorted
  · rw [if_neg hsorted]

/-- The statistics of sorted values. -/
def statistics (sorted : List ℕ) : Summary where
  count := sorted.length
  minNs := sorted.getD 0 0
  p50Ns := percentile sorted (50 / 100)
  p95Ns := percentile sorted (95 / 100)
  p99Ns := percentile sorted (99 / 100)
  maxNs := sorted.getD (sorted.length - 1) 0
  meanNs := sorted.sum / sorted.length % 2 ^ 64

/-- An empty vector has no summary. -/
theorem summary_of_nil {samples : Samples} (hvalues : samples.values = []) :
    samples.summary = (none, samples) :=
  if_pos hvalues

/-- A summary sorts the vector, and reads the statistics off it. -/
theorem Consistent.summary_of_ne_nil {samples : Samples} (h : samples.Consistent)
    (hvalues : samples.values ≠ []) :
    samples.summary = (some (statistics (samples.values : Multiset ℕ).sort),
      ⟨(samples.values : Multiset ℕ).sort, true⟩) := by
  simp only [summary, if_neg hvalues, h.ordered]
  rfl

theorem pairwise_sort (values : List ℕ) : (values : Multiset ℕ).sort.Pairwise (· ≤ ·) :=
  Multiset.pairwise_sort _ _

/-- Sorting keeps every sample. -/
theorem sort_perm (values : List ℕ) : (values : Multiset ℕ).sort.Perm values :=
  Multiset.coe_eq_coe.1 (Multiset.sort_eq _ _)

/-- **A consistent vector is summarized as the bag of its values.** -/
theorem Consistent.summary_eq {samples : Samples} (h : samples.Consistent) :
    samples.summary.1 = summaryOf samples.values := by
  have hsorted : Consistent ⟨(samples.values : Multiset ℕ).sort, true⟩ := fun _ ↦ pairwise_sort _
  by_cases hvalues : samples.values = []
  · have hnil : (samples.values : Multiset ℕ).sort = [] :=
      List.perm_nil.1 (hvalues ▸ sort_perm samples.values)
    rw [summary_of_nil hvalues, summaryOf, summary_of_nil hnil]
  · have hne : (samples.values : Multiset ℕ).sort ≠ [] := fun hnil ↦
      hvalues (List.perm_nil.1 (hnil ▸ (sort_perm samples.values).symm))
    rw [h.summary_of_ne_nil hvalues, summaryOf, hsorted.summary_of_ne_nil hne, Multiset.sort_eq]

/-- Summarizing a vector sorts it, at most. -/
theorem Consistent.summary_snd {samples : Samples} (h : samples.Consistent) :
    samples.summary.2.Consistent ∧ samples.summary.2.values.Perm samples.values := by
  by_cases hvalues : samples.values = []
  · rw [summary_of_nil hvalues]
    exact ⟨h, .refl _⟩
  · rw [h.summary_of_ne_nil hvalues]
    exact ⟨fun _ ↦ pairwise_sort _, sort_perm _⟩

/-! ### Programs that collect samples

A program names its variables, and may merge one into another, which consumes it. Every reply is
kept, in order. -/

/-- What a program can do with its samples. -/
structure Collector (α : Type) where
  new : α
  record : α → ℕ → α
  merge : α → α → α
  summary : α → Option Summary × α
  len : α → ℕ

/-- `Samples`. -/
def vectors : Collector Samples where
  new := new
  record := record
  merge := merge
  summary := summary
  len := len

/-- What `Samples` are for. -/
def bags : Collector (Multiset ℕ) where
  new := 0
  record bag nanos := bag + {nanos}
  merge bag other := bag + other
  summary bag := (summaryOf bag, bag)
  len := Multiset.card

/-- A call, on variables named by `ι`. -/
inductive Call (ι : Type) where
  | new (x : ι)
  | record (x : ι) (nanos : ℕ)
  /-- `x.merge(y)`, which takes what `y` holds. -/
  | merge (x y : ι)
  | summary (x : ι)
  | len (x : ι)

/-- What a call returns. -/
inductive Reply where
  | unit
  | summary (summary : Option Summary)
  | len (n : ℕ)
  deriving DecidableEq, Repr

/-- Related values that are handed on. -/
theorem rel_bind {α β γ δ : Type} {R : α → β → Prop} {S : γ → δ → Prop} {o : Option α}
    {o' : Option β} {f : α → Option γ} {g : β → Option δ} (ho : Option.Rel R o o')
    (h : ∀ a b, R a b → Option.Rel S (f a) (g b)) : Option.Rel S (o.bind f) (o'.bind g) := by
  cases ho with
  | some hab => exact h _ _ hab
  | none => exact .none

/-- What a related call returns. -/
theorem exists_of_rel_some {α β : Type} {R : α → β → Prop} {a : α} {o : Option β}
    (h : Option.Rel R (some a) o) : ∃ b, o = some b ∧ R a b := by
  cases h with
  | some hab => exact ⟨_, rfl, hab⟩

section Programs

variable {ι α β : Type} [DecidableEq ι]

/-- One call. A variable that holds nothing, because nothing was assigned to it or because what it
held was taken, cannot be used. -/
def perform (A : Collector α) (vars : ι → Option α) :
    Call ι → Option ((ι → Option α) × Reply)
  | .new x => some (Function.update vars x (some A.new), .unit)
  | .record x nanos => do
    let a ← vars x
    return (Function.update vars x (some (A.record a nanos)), .unit)
  | .merge x y =>
    if x = y then none
    else do
      let a ← vars x
      let b ← vars y
      return (Function.update (Function.update vars y none) x (some (A.merge a b)), .unit)
  | .summary x => do
    let a ← vars x
    return (Function.update vars x (some (A.summary a).2), .summary (A.summary a).1)
  | .len x => do
    let a ← vars x
    return (vars, .len (A.len a))

/-- Calls one after the other, with what they return. -/
def run (A : Collector α) :
    List (Call ι) → (ι → Option α) → Option ((ι → Option α) × List Reply)
  | [], vars => some (vars, [])
  | call :: calls, vars => do
    let (vars, reply) ← perform A vars call
    let (vars, replies) ← run A calls vars
    return (vars, reply :: replies)

/-! ### Refinement

The usual forward simulation: related variables stay related under every call, and the replies are
the same. It says nothing of what the vectors look like, and does not have to. -/

/-- Related samples give the same replies, and stay related under every call. -/
structure Refines (R : α → β → Prop) (A : Collector α) (B : Collector β) : Prop where
  new : R A.new B.new
  record : ∀ a b nanos, R a b → R (A.record a nanos) (B.record b nanos)
  merge : ∀ a b a' b', R a b → R a' b' → R (A.merge a a') (B.merge b b')
  summary : ∀ a b, R a b → (A.summary a).1 = (B.summary b).1 ∧ R (A.summary a).2 (B.summary b).2
  len : ∀ a b, R a b → A.len a = B.len b

/-- Variable by variable, both hold something related or both hold nothing. -/
def Related (R : α → β → Prop) (vars : ι → Option α) (vars' : ι → Option β) : Prop :=
  ∀ x, Option.Rel R (vars x) (vars' x)

/-- Assigning related values to a variable. -/
theorem Related.update {R : α → β → Prop} {vars : ι → Option α} {vars' : ι → Option β}
    (h : Related R vars vars') (x : ι) {o : Option α} {o' : Option β} (ho : Option.Rel R o o') :
    Related R (Function.update vars x o) (Function.update vars' x o') := by
  intro y
  by_cases hy : y = x
  · subst hy
    rwa [Function.update_self, Function.update_self]
  · rw [Function.update_of_ne hy, Function.update_of_ne hy]
    exact h y

/-- Both runs came to related variables with the same replies, or neither could go on. -/
def SameReplies (R : α → β → Prop) {ρ : Type} :
    Option ((ι → Option α) × ρ) → Option ((ι → Option β) × ρ) → Prop :=
  Option.Rel fun out out' ↦ Related R out.1 out'.1 ∧ out.2 = out'.2

variable {R : α → β → Prop} {A : Collector α} {B : Collector β}

/-- **The step lemma.** A call on related variables. -/
theorem Refines.perform (h : Refines R A B) {vars : ι → Option α} {vars' : ι → Option β}
    (hvars : Related R vars vars') (call : Call ι) :
    SameReplies R (perform A vars call) (perform B vars' call) := by
  cases call with
  | new x => exact Option.Rel.some ⟨hvars.update x (.some h.new), rfl⟩
  | record x nanos =>
    exact rel_bind (hvars x) fun a b hab ↦
      .some ⟨hvars.update x (.some (h.record a b nanos hab)), rfl⟩
  | merge x y =>
    by_cases hxy : x = y
    · simp only [Samples.perform, if_pos hxy]
      exact .none
    · simp only [Samples.perform, if_neg hxy]
      refine rel_bind (hvars x) fun a b hab ↦ rel_bind (hvars y) fun a' b' hab' ↦ ?_
      exact .some ⟨(hvars.update y .none).update x (.some (h.merge a b a' b' hab hab')), rfl⟩
  | summary x =>
    refine rel_bind (hvars x) fun a b hab ↦ ?_
    obtain ⟨hreply, hrest⟩ := h.summary a b hab
    exact .some ⟨hvars.update x (.some hrest), congrArg Reply.summary hreply⟩
  | len x =>
    exact rel_bind (hvars x) fun a b hab ↦ .some ⟨hvars, congrArg Reply.len (h.len a b hab)⟩

/-- **The run lemma.** A program gets the same replies from both, and is left with related
variables. -/
theorem Refines.run (h : Refines R A B) (calls : List (Call ι)) {vars : ι → Option α}
    {vars' : ι → Option β} (hvars : Related R vars vars') :
    SameReplies R (run A calls vars) (run B calls vars') := by
  induction calls generalizing vars vars' with
  | nil => exact Option.Rel.some ⟨hvars, rfl⟩
  | cons call calls ih =>
    refine rel_bind (h.perform hvars call) fun out out' hout ↦ ?_
    obtain ⟨hrest, hreply⟩ := hout
    refine rel_bind (ih hrest) fun outs outs' houts ↦ ?_
    obtain ⟨hlast, hreplies⟩ := houts
    exact .some ⟨hlast, congrArg₂ List.cons hreply hreplies⟩

end Programs

/-- The vector is consistent, and holds what the bag holds. -/
structure Holds (samples : Samples) (bag : Multiset ℕ) : Prop where
  consistent : samples.Consistent
  values : ↑samples.values = bag

/-- **`Samples` are bags.** -/
theorem refines_bags : Refines Holds vectors bags where
  new := ⟨fun h ↦ absurd h Bool.false_ne_true, rfl⟩
  record samples bag nanos h := by
    refine ⟨fun h ↦ absurd h Bool.false_ne_true, ?_⟩
    rw [← h.values]
    rfl
  merge samples bag other bag' h h' := by
    refine ⟨fun h ↦ absurd h Bool.false_ne_true, ?_⟩
    rw [← h.values, ← h'.values]
    rfl
  summary samples bag h := by
    obtain ⟨hconsistent, hperm⟩ := h.consistent.summary_snd
    refine ⟨?_, hconsistent, (Multiset.coe_eq_coe.2 hperm).trans h.values⟩
    rw [← h.values]
    exact h.consistent.summary_eq
  len samples bag h := by
    rw [← h.values]
    rfl

/-! ### Joining tasks -/

/-- One handle is joined: its task finished with its samples or an error, or it panicked. -/
def joinHandle (joined : Samples × List (Except Error Unit)) :
    Except String (Except Error Samples) → Samples × List (Except Error Unit)
  | .ok (.ok samples) => (joined.1.merge samples, joined.2 ++ [.ok ()])
  | .ok (.error e) => (joined.1, joined.2 ++ [.error e])
  | .error e => (joined.1, joined.2 ++ [.error (.usage ("task panicked: " ++ e))])

/-- `join_tasks`, over handles whose tasks may panic. -/
def joinHandles (handles : List (Except String (Except Error Samples))) :
    Samples × List (Except Error Unit) :=
  handles.foldl joinHandle (.new, [])

/-- The samples of the tasks that returned `Ok`. -/
def returned (handles : List (Except String (Except Error Samples))) : List Samples :=
  handles.filterMap fun
    | .ok (.ok samples) => some samples
    | _ => none

/-- The run's tasks never summarize what they collect, and the error of one that panicked is in its
result. -/
theorem joinTasks_eq (results : List (Except Error (List ℕ))) :
    joinTasks results =
      joinHandles (results.map fun result ↦ .ok (result.map fun values ↦ ⟨values, false⟩)) := by
  rw [joinTasks, joinHandles, List.foldl_map]
  congr 1
  funext joined result
  cases result <;> rfl

/-- Joining merges the vectors of the tasks that returned one, in order. -/
theorem foldl_joinHandle (handles : List (Except String (Except Error Samples)))
    {joined : Samples × List (Except Error Unit)} (hjoined : joined.1.sorted = false) :
    (handles.foldl joinHandle joined).1 =
      ⟨joined.1.values ++ (returned handles).flatMap (·.values), false⟩ := by
  induction handles generalizing joined with
  | nil =>
    rw [← hjoined]
    exact congrArg (Samples.mk · _) (List.append_nil _).symm
  | cons handle handles ih =>
    rcases handle with e | e | samples
    · exact ih hjoined
    · exact ih hjoined
    · refine (ih rfl).trans ?_
      exact congrArg (Samples.mk · _) (List.append_assoc _ _ _)

/-- What is merged is what the tasks that returned `Ok` collected. -/
theorem joinHandles_fst (handles : List (Except String (Except Error Samples))) :
    (joinHandles handles).1 = ⟨(returned handles).flatMap (·.values), false⟩ :=
  foldl_joinHandle handles rfl

/-- The bag of all that the given vectors hold. -/
def pooled (vectors : List Samples) : Multiset ℕ :=
  (vectors.map fun samples ↦ (samples.values : Multiset ℕ)).sum

/-- As a bag, a merge of vectors is the sum of their bags. -/
theorem coe_flatMap_values (vectors : List Samples) :
    (vectors.flatMap (·.values) : Multiset ℕ) = pooled vectors := by
  induction vectors with
  | nil => rfl
  | cons samples vectors ih =>
    rw [List.flatMap_cons, ← Multiset.coe_add, ih, pooled, pooled, List.map_cons, List.sum_cons]

/-- A merge is flagged as unsorted. -/
theorem consistent_joinHandles (handles : List (Except String (Except Error Samples))) :
    (joinHandles handles).1.Consistent := by
  rw [joinHandles_fst]
  exact fun h ↦ absurd h Bool.false_ne_true

/-- **The summary of tasks that are joined** is that of the samples they returned. -/
theorem summary_joinHandles (handles : List (Except String (Except Error Samples))) :
    (joinHandles handles).1.summary.1 = summaryOf (pooled (returned handles)) := by
  rw [(consistent_joinHandles handles).summary_eq, joinHandles_fst, coe_flatMap_values]

/-- **A summary depends only on which samples were recorded.** Whatever a program calls, and in
whatever order, it gets the replies it would get from bags, and each of its vectors is consistent,
holds exactly what was recorded into it or merged into it, and is summarized as that. Joining
tasks merges exactly the samples of those that returned `Ok`, and their order does not matter. -/
theorem collecting_exact :
    (∀ (ι : Type) [DecidableEq ι] (calls : List (Call ι)) (vars : ι → Option Samples)
        (replies : List Reply), run vectors calls (fun _ ↦ none) = some (vars, replies) →
      ∃ recorded : ι → Option (Multiset ℕ),
        run bags calls (fun _ ↦ none) = some (recorded, replies) ∧
        ∀ x samples, vars x = some samples → samples.Consistent ∧
          recorded x = some ↑samples.values ∧ samples.summary.1 = summaryOf samples.values) ∧
    ∀ handles, (joinHandles handles).1.Consistent ∧
      (joinHandles handles).1.values = (returned handles).flatMap (·.values) ∧
      (joinHandles handles).1.summary.1 = summaryOf (pooled (returned handles)) ∧
      ∀ handles', (returned handles).Perm (returned handles') →
        (joinHandles handles').1.summary.1 = (joinHandles handles).1.summary.1 := by
  refine ⟨fun ι _ calls vars replies hrun ↦ ?_, fun handles ↦ ?_⟩
  · have hempty : Related Holds (fun _ : ι ↦ none) (fun _ ↦ none) := fun _ ↦ .none
    have hrelated := refines_bags.run calls hempty
    rw [hrun] at hrelated
    obtain ⟨⟨recorded, replies'⟩, hbags, hvars, rfl⟩ := exists_of_rel_some hrelated
    refine ⟨recorded, hbags, fun x samples hx ↦ ?_⟩
    have hholds : Option.Rel Holds (vars x) (recorded x) := hvars x
    rw [hx] at hholds
    obtain ⟨bag, hbag, h⟩ := exists_of_rel_some hholds
    exact ⟨h.consistent, by rw [hbag, h.values], h.consistent.summary_eq⟩
  · refine ⟨consistent_joinHandles handles, by rw [joinHandles_fst], summary_joinHandles handles,
      fun handles' hperm ↦ ?_⟩
    rw [summary_joinHandles, summary_joinHandles, pooled, pooled, (hperm.map _).sum_eq]

end Samples

end Bench

end PulsemqCli
