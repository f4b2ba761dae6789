import PulsemqCli.Library.Reactive

/-!
# Hoare triples for reactive processes

`Triple P m Q E` says what a process makes of every world that satisfies `P`: it returns to one that
satisfies `Q`, or stops in one that satisfies `E`. The rules follow the text of a process. A loop is
proved by what one round makes of the loop's invariant, whatever stimulus the round is given.

Triples are weakest preconditions with the quantifier over worlds put in front. They are used where
one assertion is carried through a whole program, and the preconditions themselves where the outcome
has to be computed. The assertion of a loop must not depend on the stimuli still to come, which is
`Heedless`.
-/

namespace Reactive

variable {ι ω τ ε α β σ : Type}

/-- From a world that satisfies `P` the process returns to one that satisfies `Q`, or it stops in
one that satisfies `E`. -/
def Triple (P : World ι ω τ → Prop) (m : Proc ι ω τ ε α) (Q : α → World ι ω τ → Prop)
    (E : World ι ω τ → Prop) : Prop :=
  ∀ w, P w → wp m Q (fun _ ↦ E) w

/-- The property does not depend on the stimuli still to come. -/
def Heedless (P : World ι ω τ → Prop) : Prop :=
  ∀ w xs, P w → P { w with inbox := xs }

namespace Triple

variable {P P' R : World ι ω τ → Prop} {E : World ι ω τ → Prop} {m : Proc ι ω τ ε α}
  {Q Q' : α → World ι ω τ → Prop}

theorem mono (h : Triple P m Q E) (hP : ∀ w, P' w → P w) (hQ : ∀ a w, Q a w → Q' a w) :
    Triple P' m Q' E :=
  fun w hw ↦ (h w (hP w hw)).mono hQ fun _ _ he ↦ he

theorem pure {a : α} (h : ∀ w, P w → Q a w) : Triple P (pure a : Proc ι ω τ ε α) Q E :=
  h

theorem fail {e : ε} (h : ∀ w, P w → E w) : Triple P (fail e : Proc ι ω τ ε α) Q E :=
  h

theorem emit {e : ω} {Q : Unit → World ι ω τ → Prop}
    (h : ∀ w, P w → Q () { w with log := w.log ++ [e] }) :
    Triple P (emit e : Proc ι ω τ ε Unit) Q E :=
  h

/-- Two processes one after the other. -/
theorem bind {k : Proc ι ω τ ε β} {f : β → Proc ι ω τ ε α} {S : β → World ι ω τ → Prop}
    (hk : Triple P k S E) (hf : ∀ b, Triple (S b) (f b) Q E) : Triple P (k >>= f) Q E := by
  intro w hw
  rw [wp_bind]
  exact (hk w hw).mono (fun b ↦ hf b) fun _ _ he ↦ he

/-- Reading the store tells what is in it. -/
theorem load {f : τ → Proc ι ω τ ε α} (h : ∀ t, Triple (fun w ↦ P w ∧ w.store = t) (f t) Q E) :
    Triple P (Reactive.load >>= f) Q E := by
  intro w hw
  rw [wp_bind, wp_load]
  exact h w.store w ⟨hw, rfl⟩

theorem ite {c : Prop} [Decidable c] {k : Proc ι ω τ ε α} (hm : c → Triple P m Q E)
    (hk : ¬c → Triple P k Q E) : Triple P (if c then m else k) Q E := by
  split
  next h => exact hm h
  next h => exact hk h

/-- **The loop rule.** One round takes the invariant to the invariant, or to what the loop is to
establish. -/
theorem react {body : σ → ι → Proc ι ω τ ε (σ ⊕ α)} (hP : Heedless P) (waiting : ∀ w, P w → E w)
    (round : ∀ s x, Triple P (body s x) (Sum.elim (fun _ ↦ P) Q) E) (s : σ) :
    Triple P (react body s) Q E := by
  intro w hw
  refine wp_react (fun _ _ ↦ P) (fun _ w ↦ waiting w) (fun x rest s w h ↦ ?_) hw
  refine (round s x _ (hP w rest h)).mono ?_ fun _ _ he ↦ he
  rintro (s' | a) w' hw'
  · exact hw'
  · exact hw'

/-- What a triple says of the world a process leaves behind, however it ended. -/
theorem world (h : Triple P m (fun _ ↦ E) E) {w : World ι ω τ} (hw : P w) :
    E (Outcome.world (m w)) :=
  (h w hw).world

end Triple

end Reactive
