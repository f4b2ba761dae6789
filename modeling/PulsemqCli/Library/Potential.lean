import PulsemqCli.Library.Transition
import Mathlib.Algebra.BigOperators.Ring.List
import Mathlib.Algebra.Ring.Nat

/-!
# Potentials

A potential counts, in a state, the work that is still to be done. An act that does some of it pays
for itself out of the potential, and an act that brings work adds to it: so along any run what is
paid is at most the potential of the first state and what was brought (`Amortizes.run`).

A potential also serves as a rank: where a state that is not at the goal yet can reach one of
smaller rank, the goal can be reached (`can_of_rank`).

The two uses are of different kinds. The first is about all runs, and needs a step lemma for every
act. The second is about some run, and needs from every state one way to go on that makes progress.
-/

namespace Transition

variable {σ α : Type*} {act : σ → α → Option σ} {I P : σ → Prop} {step : σ → σ → Prop}

/-- In the states of an invariant, every act is paid for: what it costs is taken out of the
potential, or is brought by the act. -/
structure Amortizes (act : σ → α → Option σ) (I : σ → Prop) (potential : σ → ℕ)
    (cost credit : α → ℕ) : Prop where
  invariant : ∀ {s a t}, I s → act s a = some t → I t
  paid : ∀ {s a t}, I s → act s a = some t → potential t + cost a ≤ potential s + credit a

variable {potential : σ → ℕ} {cost credit : α → ℕ}

/-- **A run is paid for.** -/
theorem Amortizes.run (h : Amortizes act I potential cost credit) {as : List α} {s t : σ}
    (hs : I s) (hrun : as.foldlM act s = some t) :
    I t ∧ potential t + (as.map cost).sum ≤ potential s + (as.map credit).sum := by
  induction as generalizing s with
  | nil =>
    cases hrun
    exact ⟨hs, Nat.le_refl _⟩
  | cons a as ih =>
    obtain ⟨u, hu, hrest⟩ := Option.bind_eq_some_iff.1 hrun
    have hpaid := h.paid hs hu
    obtain ⟨ht, hle⟩ := ih (h.invariant hs hu) hrest
    refine ⟨ht, ?_⟩
    rw [List.map_cons, List.sum_cons, List.map_cons, List.sum_cons]
    omega

/-- **The ranking rule.** Where every state short of the goal reaches one of smaller rank, the goal
can be reached. -/
theorem can_of_rank (rank : σ → ℕ)
    (progress : ∀ s, I s → ¬P s → ∃ t, Reaches step s t ∧ I t ∧ rank t < rank s) {s : σ}
    (hs : I s) : Can step s fun t ↦ I t ∧ P t := by
  induction hn : rank s using Nat.strong_induction_on generalizing s with
  | _ n ih =>
    by_cases hP : P s
    · exact .here ⟨hs, hP⟩
    · obtain ⟨t, hreaches, ht, hlt⟩ := progress s hs hP
      exact (ih _ (hn ▸ hlt) ht rfl).of_reaches hreaches

end Transition
