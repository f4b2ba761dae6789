import PulsemqCli.Bench.Publisher.Runs
import PulsemqCli.Bench.Run
import Mathlib.Data.Fintype.Basic

/-!
# Runs of a benchmark, put together from the runs of its tasks

A run in which one publisher does something particular: the settle time passes, the publisher runs
while all other tasks rest, and where the run is to be reported the other tasks fail to connect.

Where a statement is that something can happen, a run has to be given, and most of what is in it is
the same every time. Each lemma here takes a run of one task, from the modules on that task, and
gives a run of the whole benchmark in which the others rest. `Elsewhere` says what resting leaves:
the other tasks are where they were, and the clock and the stop signal have gone on as they have for
the one that ran.

That the other tasks fail to connect is the simplest way to bring a run to its report. It needs
nothing of them, in any configuration.
-/

namespace PulsemqCli

namespace Bench

namespace Run

open Transition

variable {r : Setting} {s t u : State r} {i : Fin r.config.publishers}

/-- The act is not one of a subscriber. -/
def Act.Rests : Act r → Prop
  | .subscriber .. => False
  | _ => True

/-- A step in which the subscribers rest. -/
def RestingStep : State r → State r → Prop :=
  AllowedStep fun _ a ↦ a.Rests

/-! ### One publisher runs -/

/-- Between two states only the publisher `i` and the clock have moved. -/
structure Elsewhere (i : Fin r.config.publishers) (s t : State r) : Prop where
  main : t.main = s.main
  stop : t.stop = s.stop
  subscribers : t.subscribers = s.subscribers
  publishers : ∀ j ≠ i, s.publishers j = .connecting → t.publishers j = .connecting

theorem Elsewhere.refl (i : Fin r.config.publishers) (s : State r) : Elsewhere i s s :=
  ⟨rfl, rfl, rfl, fun _ _ h ↦ h⟩

theorem Elsewhere.trans (h : Elsewhere i s t) (h' : Elsewhere i t u) : Elsewhere i s u where
  main := h'.main.trans h.main
  stop := h'.stop.trans h.stop
  subscribers := h'.subscribers.trans h.subscribers
  publishers j hj hs := h'.publishers j hj (h.publishers j hj hs)

/-- What a publisher's task does changes nothing elsewhere. -/
theorem elsewhere_update (i : Fin r.config.publishers) (s : State r) (task : PublisherTask) :
    Elsewhere i s { s with publishers := Function.update s.publishers i task } where
  main := rfl
  stop := rfl
  subscribers := rfl
  publishers _ hj hs := (Function.update_of_ne hj _ _).trans hs

/-- A step of a publisher's own is a step of the run. -/
theorem step_act {c : Publisher.Setting} {p p' : Publisher.State} {b : Publisher.Act}
    (hs : s.publishers i = .running c p) (hown : ofRun b = false)
    (hb : Publisher.step c p b = some p') :
    step s (.publisher i (.act b)) =
      some { s with publishers := Function.update s.publishers i (.running c p') } := by
  have htask : (s.publishers i).step r i s.clock s.stop (.act b) = some (.running c p') := by
    rw [hs, PublisherTask.step, hown, if_neg Bool.false_ne_true, hb]
    rfl
  rw [step, htask]
  rfl

/-- A step of a publisher or of its broker is a step of the run, with time passing for all. -/
theorem step_of_served {c : Publisher.Setting} {p p' : Publisher.State}
    (h : Publisher.Served c p p') (hs : s.publishers i = .running c p) :
    ∃ t, RestingStep s t ∧ t.publishers i = .running c p' ∧ Elsewhere i s t := by
  obtain ⟨a, hserved, ha⟩ := h
  have hown : ofRun a = false → ∃ t, RestingStep s t ∧ t.publishers i = .running c p' ∧
      Elsewhere i s t := fun hown ↦
    ⟨_, ⟨.publisher i (.act a), trivial, step_act hs hown ha⟩, Function.update_self i _ _,
      elsewhere_update i s _⟩
  cases a with
  | tick nanos =>
    cases ha
    refine ⟨s.tick nanos, ⟨.tick nanos, trivial, rfl⟩, ?_, rfl, rfl, rfl, fun j _ hj ↦ ?_⟩
    · show (s.publishers i).update _ = _
      rw [hs]
      rfl
    · show (s.publishers j).update _ = _
      rw [hj]
      rfl
  | raiseStop | dropStop => exact hserved.elim
  | _ => exact hown rfl

/-- **A publisher can run while the other tasks rest.** -/
theorem reaches_of_publisher {c : Publisher.Setting} {p p' : Publisher.State}
    (h : Reaches (Publisher.Served c) p p') (hs : s.publishers i = .running c p) :
    ∃ t, Reaches RestingStep s t ∧ t.publishers i = .running c p' ∧ Elsewhere i s t := by
  induction h with
  | refl => exact ⟨s, .refl, hs, .refl i s⟩
  | tail _ hstep ih =>
    obtain ⟨t, ht, hti, hst⟩ := ih
    obtain ⟨u, hu, hui, htu⟩ := step_of_served hstep hti
    exact ⟨u, ht.tail hu, hui, hst.trans htu⟩

/-- The publisher that has just connected. -/
def connected (s : State r) (i : Fin r.config.publishers) (receiveMaximum : Option UInt16) :
    PublisherTask :=
  let c := r.publisher i receiveMaximum s.clock
  .running c { Publisher.initial c s.clock with stop := s.stop }

theorem step_connected (receiveMaximum : Option UInt16) (hs : s.publishers i = .connecting) :
    RestingStep s { s with
      publishers := Function.update s.publishers i (connected s i receiveMaximum) } := by
  refine ⟨.publisher i (.connected receiveMaximum), trivial, ?_⟩
  rw [step, hs]
  rfl

/-- **A publisher can connect, and run while the other tasks rest.** -/
theorem reaches_of_connecting {p : Publisher.State} (hs : s.publishers i = .connecting)
    (hstop : s.stop = false)
    (h : Reaches (Publisher.Served (r.publisher i none s.clock))
      (Publisher.initial (r.publisher i none s.clock) s.clock) p) :
    ∃ t, Reaches RestingStep s t ∧ t.publishers i = .running (r.publisher i none s.clock) p ∧
      Elsewhere i s t := by
  have hconnected : connected s i none = .running (r.publisher i none s.clock)
      (Publisher.initial (r.publisher i none s.clock) s.clock) := by
    rw [connected, hstop]
    rfl
  obtain ⟨t, ht, hti, helsewhere⟩ := reaches_of_publisher (s := { s with
    publishers := Function.update s.publishers i (connected s i none) })
    h ((Function.update_self i _ _).trans hconnected)
  exact ⟨t, .head (step_connected none hs) ht, hti, (elsewhere_update i s _).trans helsewhere⟩

/-- A publisher with something to send can connect and send it some time later, dated with the
time it is due. -/
theorem reaches_written (nanos : ℕ) (hs : s.publishers i = .connecting) (hstop : s.stop = false)
    (hquota : r.config.quotaFor (UInt32.ofNat i).toNat ≠ some 0) :
    ∃ t p m, Reaches RestingStep s t ∧
      t.publishers i = .running (r.publisher i none s.clock) p ∧ .publish m ∈ p.written ∧
      m.payload = (Publisher.nextUnacknowledged (r.publisher i none s.clock)
        (Publisher.initial (r.publisher i none s.clock) (s.clock + nanos))).payload ∧
      Elsewhere i s t := by
  let c := r.publisher i none s.clock
  let p₁ := Publisher.initial c (s.clock + nanos)
  have hmore : Publisher.More c p₁ := fun q hq ↦
    Nat.pos_of_ne_zero fun h0 ↦ hquota (hq.trans (congrArg some h0))
  obtain ⟨p, m, hp, hm, hpayload⟩ :=
    Publisher.reaches_published ⟨rfl, rfl, rfl, rfl⟩ hmore fun _ ↦ c.window_pos.ne'
  have hwaits : Publisher.step c (Publisher.initial c s.clock) (.tick nanos) = some p₁ := rfl
  obtain ⟨t, ht, hti, helsewhere⟩ := reaches_of_connecting hs hstop
    (Publisher.served_step _ hwaits trivial (Publisher.served_of_unaided hp))
  exact ⟨t, p, m, ht, hti, hm, hpayload, helsewhere⟩

/-! ### The other tasks fail -/

/-- Why they do: they cannot reach the broker. -/
def unreachable : Error :=
  .mqtt .io

/-- All publishers of a set that are still connecting can fail to. -/
theorem reaches_publishers_refused (T : Finset (Fin r.config.publishers))
    (h : ∀ j ∈ T, s.publishers j = .connecting) :
    Reaches Step s { s with
      publishers := fun j ↦ if j ∈ T then .refused unreachable else s.publishers j } := by
  induction T using Finset.induction_on with
  | empty =>
    simp only [Finset.notMem_empty, if_false]
    exact .refl
  | insert k T hk ih =>
    refine (ih fun j hj ↦ h j (Finset.mem_insert_of_mem hj)).tail
      ⟨.publisher k (.refused unreachable), ?_⟩
    simp only [step, if_neg hk, h k (Finset.mem_insert_self k T), PublisherTask.step,
      Option.map_some, Option.some.injEq, State.mk.injEq, true_and]
    funext j
    by_cases hj : j = k
    · subst hj
      simp
    · simp [hj]

/-- All subscribers that are still connecting can fail to. -/
theorem reaches_subscribers_refused (T : Finset (Fin r.config.subscribers))
    (h : ∀ j ∈ T, s.subscribers j = .connecting) :
    Reaches Step s { s with
      subscribers := fun j ↦ if j ∈ T then .ended (.error unreachable) else s.subscribers j } := by
  induction T using Finset.induction_on with
  | empty =>
    simp only [Finset.notMem_empty, if_false]
    exact .refl
  | insert k T hk ih =>
    refine (ih fun j hj ↦ h j (Finset.mem_insert_of_mem hj)).tail
      ⟨.subscriber k (.refused unreachable), ?_⟩
    simp only [step, if_neg hk, h k (Finset.mem_insert_self k T), SubscriberTask.step,
      Option.map_some, Option.some.injEq, State.mk.injEq, true_and, and_true]
    funext j
    by_cases hj : j = k
    · subst hj
      simp
    · simp [hj]

/-- **One publisher returns, and the run is reported.** Where all the other tasks fail to connect,
the report finds that publisher as it was when it returned, but for the clock and the stop
signal. -/
theorem reaches_reported (hmain : s.main = .publishing) (hi : (s.publishers i).isEnded = true)
    (hpublishers : ∀ j ≠ i, s.publishers j = .connecting)
    (hsubscribers : ∀ j, s.subscribers j = .connecting) :
    ∃ t nanos, Reaches Step s t ∧ t.main = .reported ∧ t.publishers i =
      (s.publishers i).update fun p ↦ { p with clock := p.clock + nanos, stop := true } := by
  let s₁ : State r := { s with
    publishers := fun j ↦
      if j ∈ Finset.univ.erase i then .refused unreachable else s.publishers j }
  let s₂ : State r := { s₁ with
    subscribers := fun j ↦
      if j ∈ Finset.univ then .ended (.error unreachable) else s.subscribers j }
  let s₃ : State r := { s₂ with main := .draining (s.clock + r.config.drain) }
  let s₄ : State r := s₃.tick r.config.drain
  let s₅ : State r := { s₄.raiseStop with main := .joining }
  have hrefused : Reaches Step s s₁ :=
    reaches_publishers_refused _ fun j hj ↦ hpublishers j (Finset.ne_of_mem_erase hj)
  have hended : Reaches Step s₁ s₂ := reaches_subscribers_refused _ fun j _ ↦ hsubscribers j
  have hjoin : Step s₂ s₃ := by
    refine ⟨.joinPublishers, ?_⟩
    simp only [step, s₂, s₁, hmain]
    refine if_pos fun j ↦ ?_
    by_cases hj : j = i
    · subst hj
      simpa using hi
    · simp [hj, PublisherTask.isEnded]
  have htick : Step s₃ s₄ := ⟨.tick _, rfl⟩
  have hdrain : Step s₄ s₅ := ⟨.drain, if_pos le_rfl⟩
  have hreport : Step s₅ { s₅ with main := .reported } := by
    refine ⟨.joinSubscribers, if_pos fun j ↦ ?_⟩
    show (if j ∈ Finset.univ then SubscriberTask.ended (.error unreachable)
      else s.subscribers j).isEnded = true
    rw [if_pos (Finset.mem_univ j)]
    rfl
  refine ⟨_, r.config.drain, ((((hrefused.trans hended).tail hjoin).tail htick).tail hdrain).tail
    hreport, rfl, ?_⟩
  show ((if i ∈ Finset.univ.erase i then PublisherTask.refused unreachable
    else s.publishers i).update _).update _ = _
  rw [if_neg (Finset.notMem_erase i _)]
  cases s.publishers i <;> rfl

/-! ### The publishers are spawned -/

/-- The state in which the publishers are spawned, once the subscribers' settle time has passed. -/
def spawned (r : Setting) : State r :=
  { (initial r).tick subscriberSettle with
    main := .publishing
    publishers := fun _ ↦ .connecting }

theorem reaches_settled (r : Setting) :
    Reaches RestingStep (initial r) ((initial r).tick subscriberSettle) :=
  .single ⟨.tick _, trivial, rfl⟩

theorem step_spawned (r : Setting) :
    RestingStep ((initial r).tick subscriberSettle) (spawned r) := by
  refine ⟨.settle, trivial, if_pos ?_⟩
  show r.baseline + (if r.config.subscribers = 0 then 0 else subscriberSettle) ≤
    r.baseline + subscriberSettle
  split <;> omega

theorem reaches_spawned (r : Setting) : Reaches RestingStep (initial r) (spawned r) :=
  (reaches_settled r).tail (step_spawned r)

end Run

end Bench

end PulsemqCli
