import Mathlib.Logic.Relation

/-!
# Transition systems

A transition system is a relation on states. `Always` says that a property holds in every state a
system reaches, `Can` that it holds in some; the first is proved by an invariant, the second by a
run.

A statement of the form "exactly if" has two halves in this style. Where the condition holds an
invariant is shown, and where it does not a run to a state that violates the property;
`not_always_of_can` joins the second half to the first.
-/

namespace Transition

variable {σ : Type*} {step : σ → σ → Prop} {P Q I : σ → Prop} {s t u : σ}

/-- `t` is reached from `s`. -/
abbrev Reaches (step : σ → σ → Prop) : σ → σ → Prop :=
  Relation.ReflTransGen step

/-- The property holds in every state reached from `s`. -/
def Always (step : σ → σ → Prop) (s : σ) (P : σ → Prop) : Prop :=
  ∀ t, Reaches step s t → P t

/-- The property holds in some state reached from `s`. -/
def Can (step : σ → σ → Prop) (s : σ) (P : σ → Prop) : Prop :=
  ∃ t, Reaches step s t ∧ P t

/-- **The invariant rule.** What holds initially and is preserved by every step always holds. -/
theorem always_of_invariant (init : I s) (preserved : ∀ t u, I t → step t u → I u) :
    Always step s I := by
  intro t h
  induction h with
  | refl => exact init
  | tail _ hstep ih => exact preserved _ _ ih hstep

theorem Always.mono (h : Always step s P) (hPQ : ∀ t, P t → Q t) : Always step s Q :=
  fun t ht ↦ hPQ t (h t ht)

theorem Always.and (h : Always step s P) (h' : Always step s Q) :
    Always step s fun t ↦ P t ∧ Q t :=
  fun t ht ↦ ⟨h t ht, h' t ht⟩

/-- What always holds from `s` on always holds from any state reached. -/
theorem Always.of_reaches (h : Always step s P) (hst : Reaches step s t) : Always step t P :=
  fun u hu ↦ h u (hst.trans hu)

theorem Can.of_reaches (hst : Reaches step s t) (h : Can step t P) : Can step s P := by
  obtain ⟨u, hu, hP⟩ := h
  exact ⟨u, hst.trans hu, hP⟩

theorem Can.of_step (hst : step s t) (h : Can step t P) : Can step s P :=
  h.of_reaches (.single hst)

theorem Can.here (h : P s) : Can step s P :=
  ⟨s, .refl, h⟩

theorem not_always_of_can (h : Can step s fun t ↦ ¬P t) : ¬Always step s P := by
  obtain ⟨t, ht, hP⟩ := h
  exact fun hall ↦ hP (hall t ht)

/-! ### Two systems and one observer -/

/-- **The rule for two runs.** If no single act shows an observer which of two systems took it, no
schedule does. -/
theorem view_foldlM {τ ω α : Type*} {act : σ → α → Option σ} {act' : τ → α → Option τ}
    {view : σ → ω} {view' : τ → ω}
    (same : ∀ s t a, view s = view' t → (act s a).map view = (act' t a).map view')
    (as : List α) {s : σ} {t : τ} (h : view s = view' t) :
    (as.foldlM act s).map view = (as.foldlM act' t).map view' := by
  induction as generalizing s t with
  | nil => exact congrArg some h
  | cons a as ih =>
    have hact := same s t a h
    rw [List.foldlM_cons, List.foldlM_cons]
    cases hs : act s a with
    | none =>
      rw [hs] at hact
      rw [Option.map_eq_none_iff.1 hact.symm]
      rfl
    | some s' =>
      rw [hs] at hact
      obtain ⟨t', ht', hview⟩ := Option.map_eq_some_iff.1 hact.symm
      rw [ht']
      exact ih hview.symm

end Transition
