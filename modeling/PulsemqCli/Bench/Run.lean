import PulsemqCli.Bench.Publisher
import PulsemqCli.Bench.Subscriber

/-!
# A benchmark run

`run` spawns a task for each subscriber, sleeps for `SUBSCRIBER_SETTLE`, spawns a task for each
publisher, joins the publishers, sleeps for the drain window, raises the stop signal, and joins the
subscribers. The tasks share the clock and the stop signal; between a subscriber and a publisher
nothing else passes. A state holds every task, and `step` makes a step of one of them, of `run`
itself, or of the clock. Times are in nanoseconds.

The tasks are those of the modules on one subscriber and one publisher, and a subscriber's task is
cut where its code awaits, so that others can come in between. `SubscriberTask` and `PublisherTask`
add what surrounds the two programs: a task that is not spawned yet, one that is connecting, one
whose connection was refused, one that has ended.

The order of the acts is not restricted. A run of the system is any interleaving, with time passing
between any two steps; a fair scheduler, a fast broker or a quiet network is never assumed. Where a
statement needs less than all runs, it names the acts it allows (`AllowedStep`) and says what for.

`Passage` is the inversion lemma for one publisher's task in a step of the whole run, and is all
that invariants of publishers need: spawned, its own step, a panic, or the clock and the stop
signal.
-/

namespace PulsemqCli

namespace Bench

namespace Run

open Reactive Protocol Client Transition

/-- What a run is given. -/
structure Setting where
  config : Config
  /-- When the run begins. -/
  baseline : ℕ
  /-- `Schedule::new(start, per_publisher_rate).deadline(n)`, which is computed in floating
  point. -/
  schedule : ℕ → ℕ → Option ℕ

namespace Setting

variable (r : Setting)

def warmupUntil : ℕ :=
  r.baseline + r.config.warmup

/-- What the publisher `index` works with, once its handshake is over at `start`. -/
def publisher (index : ℕ) (receiveMaximum : Option UInt16) (start : ℕ) : Publisher.Setting where
  index := .ofNat index
  config := r.config
  receiveMaximum := receiveMaximum
  baseline := r.baseline
  warmupUntil := r.warmupUntil
  deadline := r.schedule start

end Setting

/-! ### A subscriber's task

The task runs the code of the subscriber up to its next wait. While it waits its state is that of
the code at the wait, together with its connection and its log. -/

/-- What a subscriber's task is at. -/
inductive SubscriberTask where
  /-- In `transport::connect` or the handshake. -/
  | connecting
  /-- Writing its SUBSCRIBE. -/
  | subscribing (w : Net)
  /-- Waiting for its SUBACK. -/
  | awaiting (w : Net)
  | receiving (l : Subscriber.Listening) (w : Net)
  | ended (result : Except Error (List ℕ))

/-- What a subscriber's task, or its broker, does next. -/
inductive SubscriberAct where
  | connected (keepAlive : UInt16) (fault : ℕ → Option MqttError)
  | refused (e : Error)
  | subscribe
  | hear (x : Stimulus)

namespace SubscriberTask

/-- Where a task is after a piece of its code: it goes on with what that returned, or has ended
with its error. -/
def proceed {α : Type} (k : α → Net → SubscriberTask) :
    Outcome Stimulus Event Session Error α → Option SubscriberTask
  | .ok a w => some (k a w)
  | .error (.failed e) _ => some (.ended (.error e))
  | .error .waiting _ => none

/-- The top of the receive loop, where the task looks at the stop signal first. -/
def loopTop (stop : Bool) (l : Subscriber.Listening) (w : Net) : SubscriberTask :=
  if stop then .ended (.ok l.samples) else .receiving l w

/-- A step of the subscriber `index`. -/
def step (r : Setting) (index : UInt32) (clock : ℕ) (stop : Bool) :
    SubscriberTask → SubscriberAct → Option SubscriberTask
  | .connecting, .connected keepAlive fault => some (.subscribing (.connected keepAlive fault []))
  | .connecting, .refused e => some (.ended (.error e))
  | .subscribing w, .subscribe =>
    proceed (fun _ ↦ .awaiting) (send (.subscribe (Subscriber.subscribePacket r.config)) w)
  | .awaiting w, .hear x =>
    if x = .stop then none
    else
      proceed (fun | .inl _ => .awaiting | .inr stopped => loopTop stopped (.reading ⟨0, []⟩))
        (Subscriber.awaitSubAck index.toNat stop x w)
  | .receiving l w, .hear x =>
    if x = .stop ∧ stop = false then none
    else
      proceed (fun | .inl l' => loopTop stop l' | .inr samples => fun _ ↦ .ended (.ok samples))
        (Subscriber.listenOn index.toNat ⟨r.baseline, r.warmupUntil, fun _ ↦ clock⟩ l x w)
  | _, _ => none

/-- The task has returned. -/
def isEnded : SubscriberTask → Bool
  | .ended _ => true
  | _ => false

end SubscriberTask

/-! ### A publisher's task

`connecting` stands for everything before the send loop; what the CONNACK said of the Receive
Maximum is all that is kept. An act of a publisher is one of the steps of its two tasks or of its
surroundings, or a panic. -/

/-- What a publisher's task is at. -/
inductive PublisherTask where
  | unspawned
  /-- In `transport::connect` or the handshake. -/
  | connecting
  | refused (e : Error)
  | running (c : Publisher.Setting) (p : Publisher.State)

/-- What a publisher's task, or its broker, does next. -/
inductive PublisherAct where
  | connected (receiveMaximum : Option UInt16)
  | refused (e : Error)
  | act (a : Publisher.Act)
  /-- The task panics, with what its `JoinError` says. -/
  | panic (e : String)

/-- The clock and the stop signal are the run's. -/
def ofRun : Publisher.Act → Bool
  | .tick _ | .raiseStop | .dropStop => true
  | _ => false

namespace PublisherTask

/-- A step of the publisher `index`. -/
def step (r : Setting) (index clock : ℕ) (stop : Bool) :
    PublisherTask → PublisherAct → Option PublisherTask
  | .connecting, .connected receiveMaximum =>
    let c := r.publisher index receiveMaximum clock
    some (.running c { Publisher.initial c clock with stop := stop })
  | .connecting, .refused e => some (.refused e)
  | .running c p, .act a => if ofRun a then none else (Publisher.step c p a).map (.running c)
  | .running c p, .panic e => (Publisher.panic c e p).map (.running c)
  | _, _ => none

/-- The clock, or the stop signal, changes. -/
def update (f : Publisher.State → Publisher.State) : PublisherTask → PublisherTask
  | .running c p => .running c (f p)
  | t => t

/-- The task has returned. -/
def isEnded : PublisherTask → Bool
  | .refused _ => true
  | .running _ p => match p.phase with
    | .returned _ => true
    | _ => false
  | _ => false

end PublisherTask

/-! ### The run

`tick` passes the same time for everyone, and the stop signal is raised for all tasks at once, for
they share one channel. Both are acts of the run and not of a task. -/

/-- `SUBSCRIBER_SETTLE`. -/
def subscriberSettle : ℕ := 2 * 10 ^ 8

/-- What `run` itself is at. -/
inductive Main where
  | settling (wake : ℕ)
  /-- The publishers are spawned and being joined. -/
  | publishing
  | draining (wake : ℕ)
  /-- The subscribers are being joined. -/
  | joining
  | reported
  deriving DecidableEq, Repr

/-- The state of a run. -/
structure State (r : Setting) where
  main : Main
  clock : ℕ
  stop : Bool
  subscribers : Fin r.config.subscribers → SubscriberTask
  publishers : Fin r.config.publishers → PublisherTask

variable {r : Setting}

/-- The subscribers are spawned. -/
def initial (r : Setting) : State r where
  main := .settling (r.baseline + if r.config.subscribers = 0 then 0 else subscriberSettle)
  clock := r.baseline
  stop := false
  subscribers _ := .connecting
  publishers _ := .unspawned

namespace State

/-- The stop signal is raised. -/
def raiseStop (s : State r) : State r :=
  { s with
    stop := true
    publishers := fun i ↦ (s.publishers i).update fun p ↦ { p with stop := true } }

/-- Time passes. -/
def tick (s : State r) (nanos : ℕ) : State r :=
  { s with
    clock := s.clock + nanos
    publishers := fun i ↦ (s.publishers i).update fun p ↦ { p with clock := p.clock + nanos } }

end State

/-- Who makes a step, and how. -/
inductive Act (r : Setting) where
  | tick (nanos : ℕ)
  | settle
  /-- Ctrl-C, or the run's deadline. -/
  | interrupt
  | joinPublishers
  | drain
  | joinSubscribers
  | subscriber (j : Fin r.config.subscribers) (a : SubscriberAct)
  | publisher (i : Fin r.config.publishers) (a : PublisherAct)

/-- One step. -/
def step (s : State r) : Act r → Option (State r)
  | .tick nanos => some (s.tick nanos)
  | .settle =>
    match s.main with
    | .settling wake =>
      if wake ≤ s.clock then some { s with main := .publishing, publishers := fun _ ↦ .connecting }
      else none
    | _ => none
  | .interrupt =>
    match s.main with
    | .publishing | .draining _ => some s.raiseStop
    | _ => none
  | .joinPublishers =>
    match s.main with
    | .publishing =>
      if ∀ i, (s.publishers i).isEnded then
        some { s with main := .draining (s.clock + r.config.drain) }
      else none
    | _ => none
  | .drain =>
    match s.main with
    | .draining wake => if wake ≤ s.clock then some { s.raiseStop with main := .joining } else none
    | _ => none
  | .joinSubscribers =>
    match s.main with
    | .joining => if ∀ j, (s.subscribers j).isEnded then some { s with main := .reported } else none
    | _ => none
  | .subscriber j a =>
    ((s.subscribers j).step r (.ofNat j) s.clock s.stop a).map fun t ↦
      { s with subscribers := Function.update s.subscribers j t }
  | .publisher i a =>
    ((s.publishers i).step r i s.clock s.stop a).map fun t ↦
      { s with publishers := Function.update s.publishers i t }

/-- A step by anyone. -/
def Step (s s' : State r) : Prop :=
  ∃ a, step s a = some s'

/-- A step by an act that is allowed. -/
def AllowedStep (allowed : State r → Act r → Prop) (s s' : State r) : Prop :=
  ∃ a, allowed s a ∧ step s a = some s'

theorem step_of_allowed {allowed : State r → Act r → Prop} {s s' : State r}
    (h : AllowedStep allowed s s') : Step s s' := by
  obtain ⟨a, -, ha⟩ := h
  exact ⟨a, ha⟩

/-- A restricted run is a run. -/
theorem reaches_of_allowed {allowed : State r → Act r → Prop} {s s' : State r}
    (h : Reaches (AllowedStep allowed) s s') : Reaches Step s s' :=
  Relation.ReflTransGen.mono (fun _ _ ↦ step_of_allowed) _ _ h

theorem reaches_allowed_mono {allowed allowed' : State r → Act r → Prop} {s s' : State r}
    (h : Reaches (AllowedStep allowed) s s') (himp : ∀ s a, allowed s a → allowed' s a) :
    Reaches (AllowedStep allowed') s s' :=
  Relation.ReflTransGen.mono (fun s _ ⟨a, hallowed, ha⟩ ↦ ⟨a, himp s a hallowed, ha⟩) _ _ h

theorem reaches_allowed (allowed : State r → Act r → Prop) (hall : ∀ s a, allowed s a)
    {s s' : State r} (h : Reaches Step s s') : Reaches (AllowedStep allowed) s s' :=
  Relation.ReflTransGen.mono (fun s _ ⟨a, ha⟩ ↦ ⟨a, hall s a, ha⟩) _ _ h

/-- The steps from a state, branch by branch. -/
inductive Move (s : State r) : State r → Prop where
  | tick (nanos : ℕ) : Move s (s.tick nanos)
  | settle {wake : ℕ} : s.main = .settling wake → wake ≤ s.clock →
      Move s { s with main := .publishing, publishers := fun _ ↦ .connecting }
  | interrupt : (∀ wake, s.main ≠ .settling wake) → Move s s.raiseStop
  | joinPublishers : s.main = .publishing → (∀ i, (s.publishers i).isEnded) →
      Move s { s with main := .draining (s.clock + r.config.drain) }
  | drain {wake : ℕ} : s.main = .draining wake → wake ≤ s.clock →
      Move s { s.raiseStop with main := .joining }
  | joinSubscribers : s.main = .joining → (∀ j, (s.subscribers j).isEnded) →
      Move s { s with main := .reported }
  | subscriber {j : Fin r.config.subscribers} {a : SubscriberAct} {t : SubscriberTask} :
      (s.subscribers j).step r (.ofNat j) s.clock s.stop a = some t →
      Move s { s with subscribers := Function.update s.subscribers j t }
  | publisher {i : Fin r.config.publishers} {a : PublisherAct} {t : PublisherTask} :
      (s.publishers i).step r i s.clock s.stop a = some t →
      Move s { s with publishers := Function.update s.publishers i t }

/-- **Every step is one of the moves.** -/
theorem move_of_step {s s' : State r} (h : Step s s') : Move s s' := by
  obtain ⟨a, ha⟩ := h
  cases a with
  | tick nanos =>
    cases ha
    exact .tick nanos
  | settle =>
    simp only [step] at ha
    split at ha
    next wake hmain =>
      split at ha
      next hwake =>
        cases ha
        exact .settle hmain hwake
      next => cases ha
    next => cases ha
  | interrupt =>
    simp only [step] at ha
    split at ha
    next hmain =>
      cases ha
      exact .interrupt fun _ h ↦ Main.noConfusion (hmain.symm.trans h)
    next hmain =>
      cases ha
      exact .interrupt fun _ h ↦ Main.noConfusion (hmain.symm.trans h)
    next => cases ha
  | joinPublishers =>
    simp only [step] at ha
    split at ha
    next hmain =>
      split at ha
      next hended =>
        cases ha
        exact .joinPublishers hmain hended
      next => cases ha
    next => cases ha
  | drain =>
    simp only [step] at ha
    split at ha
    next wake hmain =>
      split at ha
      next hwake =>
        cases ha
        exact .drain hmain hwake
      next => cases ha
    next => cases ha
  | joinSubscribers =>
    simp only [step] at ha
    split at ha
    next hmain =>
      split at ha
      next hended =>
        cases ha
        exact .joinSubscribers hmain hended
      next => cases ha
    next => cases ha
  | subscriber j a =>
    obtain ⟨t, ht, rfl⟩ := Option.map_eq_some_iff.1 ha
    exact .subscriber ht
  | publisher i a =>
    obtain ⟨t, ht, rfl⟩ := Option.map_eq_some_iff.1 ha
    exact .publisher ht

/-! ### What a step does to a subscriber's task -/

/-- A step is a step of the subscriber, or leaves it alone. -/
theorem subscriber_of_step {s s' : State r} {a : Act r} (h : step s a = some s')
    (j : Fin r.config.subscribers) :
    s'.subscribers j = s.subscribers j ∨ ∃ b, a = .subscriber j b ∧
      (s.subscribers j).step r (.ofNat j) s.clock s.stop b = some (s'.subscribers j) := by
  cases a with
  | tick =>
    cases h
    exact Or.inl rfl
  | settle | interrupt | joinPublishers | drain | joinSubscribers =>
    simp only [step] at h
    repeat' split at h
    all_goals cases h
    all_goals exact Or.inl rfl
  | publisher i b =>
    obtain ⟨t, -, rfl⟩ := Option.map_eq_some_iff.1 h
    exact Or.inl rfl
  | subscriber j' b =>
    obtain ⟨t, ht, rfl⟩ := Option.map_eq_some_iff.1 h
    by_cases hj : j = j'
    · subst hj
      exact Or.inr ⟨b, rfl,
        ht.trans (congrArg some (Function.update_self j t s.subscribers).symm)⟩
    · exact Or.inl (Function.update_of_ne hj _ _)

namespace SubscriberTask

variable {α : Type} {m : Command α} {k : α → Net → SubscriberTask} {w : Net} {t : SubscriberTask}
  {P : SubscriberTask → Prop}

/-- What holds of a task after a piece of its code, by the rules of the code. -/
theorem of_proceed (h : proceed k (m w) = some t)
    (hm : wp m (fun a w' ↦ P (k a w')) (fun _ _ ↦ True) w)
    (hfailed : ∀ e, P (.ended (.error e))) : P t := by
  unfold wp at hm
  rcases hrun : m w with ⟨a, w'⟩ | ⟨e | -, w'⟩ <;> rw [hrun] at h hm
  · cases h
    exact hm
  · cases h
    exact hfailed e
  · cases h

/-- A piece of code that does not stop takes the task on. -/
theorem exists_proceed (hm : wp m (fun a w' ↦ P (k a w')) (fun _ _ ↦ False) w) :
    ∃ t, proceed k (m w) = some t ∧ P t := by
  unfold wp at hm
  rcases hrun : m w with ⟨a, w'⟩ | ⟨e, w'⟩ <;> rw [hrun] at hm
  · exact ⟨_, rfl, hm⟩
  · exact hm.elim

end SubscriberTask

/-! ### What a step does to a publisher's task -/

/-- A publisher's state after some time, with the stop signal possibly raised. -/
def later (nanos : ℕ) (stop : Bool) (p : Publisher.State) : Publisher.State :=
  { p with clock := p.clock + nanos, stop := stop || p.stop }

/-- How a step takes the task of the publisher `i`: it rests while time passes and the stop signal
may be raised, or it is spawned, or the step is its own, or it panics. -/
inductive Passage (s s' : State r) (a : Act r) (i : Fin r.config.publishers) : Prop where
  | rests (nanos : ℕ) (stop : Bool) (passed : s'.clock = s.clock + nanos)
      (raised : s'.stop = (stop || s.stop))
      (task : s'.publishers i = (s.publishers i).update (later nanos stop))
  | spawned (clock : s'.clock = s.clock) (stop : s'.stop = s.stop)
      (task : s'.publishers i = .connecting)
  | connected (receiveMaximum : Option UInt16) (clock : s'.clock = s.clock)
      (stop : s'.stop = s.stop)
      (task : s'.publishers i = .running (r.publisher i receiveMaximum s.clock)
        { Publisher.initial (r.publisher i receiveMaximum s.clock) s.clock with stop := s.stop })
  | refused (e : Error) (clock : s'.clock = s.clock) (stop : s'.stop = s.stop)
      (task : s'.publishers i = .refused e)
  | runs {c : Publisher.Setting} {p p' : Publisher.State} {b : Publisher.Act}
      (act : a = .publisher i (.act b)) (own : ofRun b = false) (clock : s'.clock = s.clock)
      (stop : s'.stop = s.stop) (before : s.publishers i = .running c p)
      (runs : Publisher.step c p b = some p') (task : s'.publishers i = .running c p')
  | panics {c : Publisher.Setting} {p p' : Publisher.State} {e : String}
      (act : a = .publisher i (.panic e)) (clock : s'.clock = s.clock) (stop : s'.stop = s.stop)
      (before : s.publishers i = .running c p) (panics : Publisher.panic c e p = some p')
      (task : s'.publishers i = .running c p')

/-- A task that rests is updated with no time and no stop. -/
theorem PublisherTask.update_later (t : PublisherTask) : t = t.update (later 0 false) := by
  cases t <;> rfl

/-- **Each publisher's task is taken in one of these ways.** -/
theorem passage_of_step {s s' : State r} {a : Act r} (h : step s a = some s')
    (i : Fin r.config.publishers) : Passage s s' a i := by
  have hrests : s'.clock = s.clock → s'.stop = s.stop → s'.publishers i = s.publishers i →
      Passage s s' a i := fun hclock hstop htask ↦
    .rests 0 false hclock hstop (htask.trans (PublisherTask.update_later _))
  cases a with
  | tick nanos =>
    cases h
    exact .rests nanos false rfl rfl rfl
  | settle =>
    simp only [step] at h
    split at h
    next =>
      split at h
      next =>
        cases h
        exact .spawned rfl rfl rfl
      next => cases h
    next => cases h
  | interrupt =>
    simp only [step] at h
    split at h
    all_goals cases h
    all_goals exact .rests 0 true rfl rfl rfl
  | joinPublishers =>
    simp only [step] at h
    split at h
    next =>
      split at h
      next =>
        cases h
        exact hrests rfl rfl rfl
      next => cases h
    next => cases h
  | drain =>
    simp only [step] at h
    split at h
    next =>
      split at h
      next =>
        cases h
        exact .rests 0 true rfl rfl rfl
      next => cases h
    next => cases h
  | joinSubscribers =>
    simp only [step] at h
    split at h
    next =>
      split at h
      next =>
        cases h
        exact hrests rfl rfl rfl
      next => cases h
    next => cases h
  | subscriber j b =>
    obtain ⟨t, -, rfl⟩ := Option.map_eq_some_iff.1 h
    exact hrests rfl rfl rfl
  | publisher i' b =>
    obtain ⟨t, ht, rfl⟩ := Option.map_eq_some_iff.1 h
    by_cases hi : i = i'
    · subst hi
      have htask : Function.update s.publishers i t i = t := Function.update_self i t s.publishers
      unfold PublisherTask.step at ht
      split at ht
      next => exact .connected _ rfl rfl (htask.trans (Option.some.inj ht).symm)
      next => exact .refused _ rfl rfl (htask.trans (Option.some.inj ht).symm)
      next c p b hbefore =>
        split at ht
        next => cases ht
        next hown =>
          obtain ⟨p', hp', rfl⟩ := Option.map_eq_some_iff.1 ht
          exact .runs rfl (Bool.eq_false_iff.2 hown) rfl rfl hbefore hp' htask
      next c p e hbefore =>
        obtain ⟨p', hp', rfl⟩ := Option.map_eq_some_iff.1 ht
        exact .panics rfl rfl rfl hbefore hp' htask
      next => cases ht
    · exact hrests rfl rfl (Function.update_of_ne hi _ _)

/-- The publishers are spawned at the end of the settling. -/
theorem settling_of_settle {s s' : State r} (h : step s .settle = some s') :
    ∃ wake, s.main = .settling wake := by
  simp only [step] at h
  split at h
  next wake hmain => exact ⟨wake, hmain⟩
  next => cases h

/-- A step spawns the publisher, is its own, or lets it rest. -/
theorem publisher_of_step {s s' : State r} {a : Act r} (h : step s a = some s')
    (i : Fin r.config.publishers) :
    a = .settle ∧ s'.publishers i = .connecting ∨
      (∃ b t, a = .publisher i b ∧ (s.publishers i).step r i s.clock s.stop b = some t ∧
        s'.publishers i = t) ∨
      a ≠ .settle ∧ (∀ b, a ≠ .publisher i b) ∧
        ∃ nanos stop, s'.publishers i = (s.publishers i).update (later nanos stop) := by
  by_cases hsettle : a = .settle
  · subst hsettle
    simp only [step] at h
    repeat' split at h
    all_goals cases h
    exact .inl ⟨rfl, rfl⟩
  by_cases hown : ∃ b, a = .publisher i b
  · obtain ⟨b, rfl⟩ := hown
    obtain ⟨t, ht, rfl⟩ := Option.map_eq_some_iff.1 h
    exact .inr (.inl ⟨b, t, rfl, ht, Function.update_self i t s.publishers⟩)
  refine .inr (.inr ⟨hsettle, fun b hb ↦ hown ⟨b, hb⟩, ?_⟩)
  cases a with
  | settle => exact absurd rfl hsettle
  | tick nanos =>
    cases h
    exact ⟨nanos, false, rfl⟩
  | interrupt | drain =>
    simp only [step] at h
    repeat' split at h
    all_goals cases h
    all_goals exact ⟨0, true, rfl⟩
  | joinPublishers | joinSubscribers =>
    simp only [step] at h
    repeat' split at h
    all_goals cases h
    all_goals exact ⟨0, false, PublisherTask.update_later _⟩
  | subscriber j b =>
    obtain ⟨t, -, rfl⟩ := Option.map_eq_some_iff.1 h
    exact ⟨0, false, PublisherTask.update_later _⟩
  | publisher i' b =>
    obtain ⟨t, -, rfl⟩ := Option.map_eq_some_iff.1 h
    have hi : i ≠ i' := fun heq ↦ hown ⟨b, by rw [heq]⟩
    exact ⟨0, false, (Function.update_of_ne hi _ _).trans (PublisherTask.update_later _)⟩

end Run

end Bench

end PulsemqCli
