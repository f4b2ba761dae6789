import Mathlib.Data.List.Basic

/-!
# Reactive processes

A reactive process is a sequential program that waits for stimuli one at a time, emits events
into a log, and may fail. Its world is the list of stimuli still to come, the log so far and a
store of the program's own.

* `Proc` is the monad: state passing over a `World`, stopped early either by a failure or because
  the program still waits and no stimulus is left.
* `react` is the reactive loop: it takes the next stimulus, hands it to a body together with the
  loop's own variables, and goes round until the body breaks. It recurses on the stimuli, so it
  is structural, and a loop that would read on for ever is one that ends up `waiting`.
* `wp` is the weakest precondition, with one postcondition for a return and one for a stop. The
  rules are equivalences where the program text determines the outcome, and `wp_react` is the
  loop's invariant rule.

A program of this kind is run on a finite list of stimuli. Properties of all its runs are properties
over all lists, and runs that go on for ever are covered by their finite beginnings: each of them is
a run that ends `waiting`, and the second postcondition speaks of it.

Loops are taken apart in two ways. `reactTo_cons` unfolds one round, and is what a proof by
induction on the stimuli uses that looks for a certain run. `wp_react` is for properties of all
runs. Its invariant may speak of the stimuli still to come, of the loop's variables and of the
world, and it has to give the stop postcondition wherever the loop can run out of stimuli.
-/

namespace Reactive

/-- Why a process stopped short of a result: it failed, or it is waiting for a stimulus that has
not come. -/
inductive Stop (ε : Type) where
  | failed (error : ε)
  | waiting
  deriving DecidableEq, Repr

/-- What a process runs in: the stimuli still to come, the events emitted so far, and its store. -/
@[ext]
structure World (ι ω τ : Type) where
  inbox : List ι
  log : List ω
  store : τ

/-- A reactive process returning an `α`. -/
abbrev Proc (ι ω τ ε α : Type) := EStateM (Stop ε) (World ι ω τ) α

/-- What running a process comes to. -/
abbrev Outcome (ι ω τ ε α : Type) := EStateM.Result (Stop ε) (World ι ω τ) α

variable {ι ω τ ε α β σ : Type}

namespace Outcome

/-- The world a process leaves behind, however it ended. -/
def world : Outcome ι ω τ ε α → World ι ω τ
  | .ok _ w => w
  | .error _ w => w

/-- The value a process returned, if it did. -/
def value : Outcome ι ω τ ε α → Option α
  | .ok a _ => some a
  | .error _ _ => none

@[simp] theorem world_ok (a : α) (w : World ι ω τ) :
    world (.ok a w : Outcome ι ω τ ε α) = w := rfl

@[simp] theorem world_error (e : Stop ε) (w : World ι ω τ) :
    world (.error e w : Outcome ι ω τ ε α) = w := rfl

end Outcome

/-! ### Primitive processes -/

/-- Append one event to the log. -/
def emit (e : ω) : Proc ι ω τ ε Unit :=
  modify fun w ↦ { w with log := w.log ++ [e] }

/-- Fail with an error. -/
def fail (e : ε) : Proc ι ω τ ε α :=
  throw (.failed e)

/-- Read the store. -/
def load : Proc ι ω τ ε τ := do
  return (← get).store

/-- Replace the store. -/
def save (t : τ) : Proc ι ω τ ε Unit :=
  modify fun w ↦ { w with store := t }

/-- The reactive loop over a given list of stimuli. -/
def reactTo (body : σ → ι → Proc ι ω τ ε (σ ⊕ α)) : List ι → σ → Proc ι ω τ ε α
  | [], _ => throw .waiting
  | x :: rest, s => do
    modify fun w ↦ { w with inbox := rest }
    match ← body s x with
    | .inl s' => reactTo body rest s'
    | .inr a => return a

/-- The reactive loop over the stimuli the world still holds. -/
def react (body : σ → ι → Proc ι ω τ ε (σ ⊕ α)) (s : σ) : Proc ι ω τ ε α := do
  reactTo body (← get).inbox s

/-- What a sequence comes to. -/
theorem bind_eq (m : Proc ι ω τ ε β) (f : β → Proc ι ω τ ε α) (w : World ι ω τ) :
    (m >>= f) w = match m w with
      | .ok b v => f b v
      | .error e v => .error e v := by
  simp only [bind, EStateM.bind]
  cases m w <;> rfl

/-- A sequence returns exactly where both of its parts do. -/
theorem bind_eq_ok {m : Proc ι ω τ ε β} {f : β → Proc ι ω τ ε α} {a : α} {w w' : World ι ω τ} :
    (m >>= f) w = .ok a w' ↔ ∃ b v, m w = .ok b v ∧ f b v = .ok a w' := by
  rw [bind_eq]
  cases m w with
  | ok b v =>
    constructor
    · exact fun h ↦ ⟨b, v, rfl, h⟩
    · rintro ⟨b', v', hb, h⟩
      cases hb
      exact h
  | error e v => exact ⟨nofun, fun ⟨_, _, h, _⟩ ↦ by cases h⟩

/-- A loop is its first round and then the rest of the loop, or what the round ended it with. -/
theorem reactTo_cons (body : σ → ι → Proc ι ω τ ε (σ ⊕ α)) (x : ι) (rest : List ι) (s : σ)
    (w : World ι ω τ) :
    reactTo body (x :: rest) s w =
      (body s x >>= fun r ↦ match r with
        | .inl s' => reactTo body rest s'
        | .inr b => return b) { w with inbox := rest } :=
  rfl

/-- A loop returns exactly where its first round ends it, or the rest of the loop returns. -/
theorem reactTo_cons_eq_ok {body : σ → ι → Proc ι ω τ ε (σ ⊕ α)} {x : ι} {rest : List ι} {s : σ}
    {a : α} {w w' : World ι ω τ} :
    reactTo body (x :: rest) s w = .ok a w' ↔ ∃ r v, body s x { w with inbox := rest } = .ok r v ∧
      match r with
      | .inl s' => reactTo body rest s' v = .ok a w'
      | .inr b => b = a ∧ v = w' := by
  rw [reactTo_cons, bind_eq_ok]
  refine exists_congr fun r ↦ exists_congr fun v ↦ and_congr_right fun _ ↦ ?_
  rcases r with s' | b
  · exact Iff.rfl
  · constructor
    · intro h
      cases h
      exact ⟨rfl, rfl⟩
    · rintro ⟨rfl, rfl⟩
      rfl

/-! ### Weakest preconditions -/

/-- The weakest precondition of `m` for the postconditions `Q`, on a return, and `E`, on a
stop. -/
def wp (m : Proc ι ω τ ε α) (Q : α → World ι ω τ → Prop) (E : Stop ε → World ι ω τ → Prop)
    (w : World ι ω τ) : Prop :=
  match m w with
  | .ok a w' => Q a w'
  | .error e w' => E e w'

variable {Q Q' : α → World ι ω τ → Prop} {E E' : Stop ε → World ι ω τ → Prop} {w w' : World ι ω τ}

/-- A weakest precondition read off a run that returned. -/
theorem wp.of_ok {m : Proc ι ω τ ε α} {a : α} (h : wp m Q E w) (hm : m w = .ok a w') :
    Q a w' := by
  rwa [wp, hm] at h

/-- A weakest precondition read off a run that stopped. -/
theorem wp.of_error {m : Proc ι ω τ ε α} {e : Stop ε} (h : wp m Q E w) (hm : m w = .error e w') :
    E e w' := by
  rwa [wp, hm] at h

/-- A weakest precondition whose postconditions speak of the world alone is about the world the
process leaves behind. -/
theorem wp.world {m : Proc ι ω τ ε α} {P : World ι ω τ → Prop}
    (h : wp m (fun _ ↦ P) (fun _ ↦ P) w) : P (Outcome.world (m w)) := by
  unfold wp at h
  cases hm : m w <;> rw [hm] at h <;> exact h

/-- Weaker postconditions have weaker preconditions. -/
theorem wp.mono {m : Proc ι ω τ ε α} (h : wp m Q E w) (hQ : ∀ a w', Q a w' → Q' a w')
    (hE : ∀ e w', E e w' → E' e w') : wp m Q' E' w := by
  unfold wp at h ⊢
  cases hm : m w <;> simp only [hm] at h ⊢
  · exact hQ _ _ h
  · exact hE _ _ h

/-! The rules are equations between predicates on worlds, so that they rewrite under the
continuation of a bind as well. -/

/-- A return gives the first postcondition. -/
@[simp]
theorem wp_pure (a : α) : wp (pure a) Q E = Q a :=
  rfl

/-- A sequence: the second part's precondition is the first part's postcondition. -/
@[simp]
theorem wp_bind (m : Proc ι ω τ ε β) (f : β → Proc ι ω τ ε α) :
    wp (m >>= f) Q E = wp m (fun b ↦ wp (f b) Q E) E := by
  funext w
  simp only [wp, bind, EStateM.bind]
  cases m w <;> rfl

/-- A result that is mapped. -/
@[simp]
theorem wp_map (f : β → α) (m : Proc ι ω τ ε β) :
    wp (f <$> m) Q E = wp m (fun b ↦ Q (f b)) E := by
  funext w
  simp only [wp, Functor.map, EStateM.map]
  cases m w <;> rfl

/-- A change of the world. -/
@[simp]
theorem wp_modify (f : World ι ω τ → World ι ω τ) {Q : Unit → World ι ω τ → Prop} :
    wp (modify f : Proc ι ω τ ε Unit) Q E = fun w ↦ Q () (f w) :=
  rfl

/-- An event is added to the log. -/
@[simp]
theorem wp_emit (e : ω) {Q : Unit → World ι ω τ → Prop} :
    wp (emit e : Proc ι ω τ ε Unit) Q E = fun w ↦ Q () { w with log := w.log ++ [e] } :=
  rfl

/-- A failure gives the second postcondition. -/
@[simp]
theorem wp_fail (e : ε) : wp (fail e : Proc ι ω τ ε α) Q E = E (.failed e) :=
  rfl

/-- The store is read. -/
@[simp]
theorem wp_load {Q : τ → World ι ω τ → Prop} :
    wp (load : Proc ι ω τ ε τ) Q E = fun w ↦ Q w.store w :=
  rfl

/-- The store is replaced. -/
@[simp]
theorem wp_save (t : τ) {Q : Unit → World ι ω τ → Prop} :
    wp (save t : Proc ι ω τ ε Unit) Q E = fun w ↦ Q () { w with store := t } :=
  rfl

/-! ### The loop rule -/

/-- What one round of a reactive loop has to establish from the invariant `I`, in terms of the
stimuli still to come: the invariant again if the body goes on, the postconditions if it does
not. -/
def Round (I : List ι → σ → World ι ω τ → Prop) (Q : α → World ι ω τ → Prop) (rest : List ι) :
    σ ⊕ α → World ι ω τ → Prop
  | .inl s => I rest s
  | .inr a => Q a

@[simp] theorem round_inl (I : List ι → σ → World ι ω τ → Prop) (rest : List ι) (s : σ) :
    Round I Q rest (.inl s) = I rest s := rfl

@[simp] theorem round_inr (I : List ι → σ → World ι ω τ → Prop) (rest : List ι) (a : α) :
    Round I Q rest (.inr a) = Q a := rfl

/-- **The invariant rule of the reactive loop.** An invariant that gives the stop postcondition
when no stimulus is left, and that one round preserves or turns into the postconditions, gives
them of the whole loop. -/
theorem wp_reactTo {body : σ → ι → Proc ι ω τ ε (σ ⊕ α)} (I : List ι → σ → World ι ω τ → Prop)
    (waiting : ∀ s w, I [] s w → E .waiting w)
    (round : ∀ x rest s w, I (x :: rest) s w →
      wp (body s x) (Round I Q rest) E { w with inbox := rest }) :
    ∀ (xs : List ι) (s : σ) (w : World ι ω τ), I xs s w → wp (reactTo body xs s) Q E w := by
  intro xs
  induction xs with
  | nil =>
    intro s w h
    exact waiting s w h
  | cons x rest ih =>
    intro s w h
    simp only [reactTo, wp_bind, wp_modify]
    refine (round x rest s w h).mono ?_ fun _ _ he ↦ he
    rintro (s' | a) w' hr
    · exact ih s' w' hr
    · exact hr

/-- The invariant rule, for the loop over the stimuli the world holds. -/
theorem wp_react {body : σ → ι → Proc ι ω τ ε (σ ⊕ α)} (I : List ι → σ → World ι ω τ → Prop)
    (waiting : ∀ s w, I [] s w → E .waiting w)
    (round : ∀ x rest s w, I (x :: rest) s w →
      wp (body s x) (Round I Q rest) E { w with inbox := rest })
    {s : σ} (init : I w.inbox s w) : wp (react body s) Q E w :=
  wp_reactTo I waiting round w.inbox s w init

end Reactive
