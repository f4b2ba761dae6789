import PulsemqCli.Library.Transition

/-!
# Histories

A transition system whose steps show events. The history of a run is all the events its steps
showed, in order. A history says what the last state does not: what came before what.

There are two versions. In `History` the events are a function of the two states of a step, which is
enough where each kind of change shows in the state. In `Marked` they are a function of the state
and the act, for systems whose acts are named. Both have an invariant rule over pairs of a state and
the events so far, and a way to make a run out of acts that are performed one by one, which is how a
run on fixed inputs is given.

`Throughout` is for properties of an event and what came before it.
-/

namespace Transition

variable {σ ε : Type*} {step : σ → σ → Prop} {events : σ → σ → List ε}

/-- `t` is reached from `s` by a run with the given history. -/
inductive History (step : σ → σ → Prop) (events : σ → σ → List ε) (s : σ) :
    List ε → σ → Prop where
  | start : History step events s [] s
  | next {es : List ε} {t u : σ} : History step events s es t → step t u →
      History step events s (es ++ events t u) u

namespace History

variable {s t u : σ} {es fs : List ε}

theorem reaches (h : History step events s es t) : Reaches step s t := by
  induction h with
  | start => exact .refl
  | next _ hstep ih => exact ih.tail hstep

/-- Every run has a history. -/
theorem exists_of_reaches (h : Reaches step s t) : ∃ es, History step events s es t := by
  induction h with
  | refl => exact ⟨[], .start⟩
  | tail _ hstep ih =>
    obtain ⟨es, hes⟩ := ih
    exact ⟨_, hes.next hstep⟩

/-- A run goes on with another. -/
theorem trans (h : History step events s es t) (h' : History step events t fs u) :
    History step events s (es ++ fs) u := by
  induction h' with
  | start =>
    rw [List.append_nil]
    exact h
  | next _ hstep ih =>
    rw [← List.append_assoc]
    exact ih.next hstep

/-- **The invariant rule for histories.** -/
theorem invariant {I : List ε → σ → Prop} (h : History step events s es t) (init : I [] s)
    (preserved : ∀ es t u, I es t → step t u → I (es ++ events t u) u) : I es t := by
  induction h with
  | start => exact init
  | next _ hstep ih => exact preserved _ _ _ ih hstep

/-- Acts one after the other, with what they show. -/
def perform {α : Type*} (act : σ → α → Option σ) (events : σ → σ → List ε) :
    List α → List ε × σ → Option (List ε × σ)
  | [], x => some x
  | a :: as, (es, s) => (act s a).bind fun t ↦ perform act events as (es ++ events s t, t)

/-- Acts that are performed make a run. -/
theorem of_perform {α : Type*} {act : σ → α → Option σ} {as : List α}
    (hact : ∀ s a t, act s a = some t → step s t) (h : History step events s es t)
    (hperform : perform act events as (es, t) = some (fs, u)) :
    History step events s fs u := by
  induction as generalizing es t with
  | nil =>
    cases hperform
    exact h
  | cons a as ih =>
    obtain ⟨t', ht', hrest⟩ := Option.bind_eq_some_iff.1 hperform
    exact ih (h.next (hact _ _ _ ht')) hrest

end History

/-! ### Runs by acts -/

/-- `t` is reached from `s` by allowed acts, each of which leaves its marks. -/
inductive Marked {α : Type*} (allowed : σ → α → Prop) (act : σ → α → Option σ)
    (marks : σ → α → List ε) (s : σ) : List ε → σ → Prop where
  | start : Marked allowed act marks s [] s
  | next {es : List ε} {t u : σ} {a : α} : Marked allowed act marks s es t → allowed t a →
      act t a = some u → Marked allowed act marks s (es ++ marks t a) u

namespace Marked

variable {α : Type*} {allowed : σ → α → Prop} {act : σ → α → Option σ} {marks : σ → α → List ε}
  {s t u : σ} {es fs : List ε}

/-- **The invariant rule for marked runs.** -/
theorem invariant {I : List ε → σ → Prop} (h : Marked allowed act marks s es t) (init : I [] s)
    (preserved : ∀ es t a u, I es t → allowed t a → act t a = some u → I (es ++ marks t a) u) :
    I es t := by
  induction h with
  | start => exact init
  | next _ hallowed hact ih => exact preserved _ _ _ _ ih hallowed hact

/-- Acts one after the other, each checked to be allowed, with their marks. -/
def perform (check : σ → α → Bool) (act : σ → α → Option σ) (marks : σ → α → List ε) :
    List α → List ε × σ → Option (List ε × σ)
  | [], x => some x
  | a :: as, (es, t) =>
    if check t a then (act t a).bind fun u ↦ perform check act marks as (es ++ marks t a, u)
    else none

/-- Acts that are performed make a marked run. -/
theorem of_perform {check : σ → α → Bool} {as : List α}
    (hcheck : ∀ t a, check t a = true → allowed t a) (h : Marked allowed act marks s es t)
    (hperform : perform check act marks as (es, t) = some (fs, u)) :
    Marked allowed act marks s fs u := by
  induction as generalizing es t with
  | nil =>
    cases hperform
    exact h
  | cons a as ih =>
    rw [perform] at hperform
    split at hperform
    next hallowed =>
      obtain ⟨t', ht', hrest⟩ := Option.bind_eq_some_iff.1 hperform
      exact ih (h.next (hcheck t a hallowed) ht') hrest
    next => cases hperform

end Marked

/-! ### What holds of every event -/

/-- Each event is as it should be, given the events before it. -/
def Throughout (P : List ε → ε → Prop) (es : List ε) : Prop :=
  ∀ before e after, es = before ++ e :: after → P before e

variable {P : List ε → ε → Prop} {es : List ε} {e : ε}

theorem throughout_nil : Throughout P [] :=
  fun _ _ _ h ↦ absurd h.symm (by simp)

theorem Throughout.of_append {fs : List ε} (h : Throughout P (es ++ fs)) : Throughout P es := by
  intro before e after hes
  refine h before e (after ++ fs) ?_
  rw [hes, List.append_assoc, List.cons_append]

theorem throughout_snoc : Throughout P (es ++ [e]) ↔ Throughout P es ∧ P es e := by
  constructor
  · intro h
    exact ⟨h.of_append, h es e [] rfl⟩
  · rintro ⟨h, he⟩ before e' after hes
    rcases List.eq_nil_or_concat after with rfl | ⟨after', e'', rfl⟩
    · obtain ⟨rfl, hlast⟩ := List.append_inj' hes rfl
      cases hlast
      exact he
    · rw [List.concat_eq_append, ← List.cons_append, ← List.append_assoc] at hes
      exact h before e' after' (List.append_inj' hes rfl).1

/-- Events that are as they should be whatever comes in between. -/
theorem Throughout.append {fs : List ε} (mono : ∀ es fs e, P es e → P (es ++ fs) e)
    (h : Throughout P es) (hfs : ∀ e ∈ fs, P es e) : Throughout P (es ++ fs) := by
  induction fs generalizing es with
  | nil => rwa [List.append_nil]
  | cons e fs ih =>
    rw [List.append_cons]
    refine ih (throughout_snoc.2 ⟨h, hfs e List.mem_cons_self⟩) fun f hf ↦ ?_
    exact mono _ _ _ (hfs f (List.mem_cons_of_mem e hf))

end Transition
