import PulsemqCli.Bench.Publisher.Termination
import PulsemqCli.Bench.Report
import Mathlib.Data.Fintype.Basic

/-!
# Whether a run comes to its report

Once the stop signal is raised the publishers return by themselves, and so do the subscribers that
are in their receive loop. What the signal does not reach are the tasks that are still connecting,
and the subscribers that wait for their SUBACK: nothing but the broker takes them on, and there is
no time limit on either wait.

Nor is there one on a write. `blocked` are the publishers whose sockets take nothing more; they
return only if all their writes are done. The writes of a subscriber are taken to complete or to
fail: each is part of the step that makes it.

A run without the broker makes `QuietStep`s: the tasks' own, those of `run` itself, the clock and
the stop signal, and a blocked socket ends no write in any of them. `CanReport` says that such steps
lead to the report from wherever a run is. The result is an equivalence, so each condition is shown
to be needed by an invariant of quiet steps (`subscriber_needsBroker_of_step`,
`publisher_needsBroker_of_step`), and all together to suffice by building the run.

The run is built one task at a time, and a task is taken to its end by the other tasks standing
still. `Meanwhile` says what standing still comes to: a task's clock and stop signal are the run's,
and go on. Since a publisher can be told to stop at any time, the construction is uniform in how far
it is; the number of its steps does not matter here and is bounded where publishers are studied
alone.
-/

namespace PulsemqCli

namespace Bench

namespace Run

open Protocol Client Transition

variable {r : Setting} {s t u : State r} {i : Fin r.config.publishers}
  {blocked : Fin r.config.publishers → Prop}

/-! ### Steps without the broker -/

/-- The subscriber's step needs nothing from the broker. -/
def SubscriberAct.Quiet : SubscriberAct → Prop
  | .subscribe | .hear .stop => True
  | _ => False

/-- The publisher's step needs nothing from the broker. A panic, which ends the task wherever it is,
is left out. -/
def PublisherAct.Quiet : PublisherAct → Prop
  | .act (.deliver _) => False
  | .act _ => True
  | _ => False

/-- The step needs nothing from the broker. -/
def Act.Quiet : Act r → Prop
  | .subscriber _ a => a.Quiet
  | .publisher _ a => a.Quiet
  | _ => True

/-- The step ends a write of the publisher `i`. -/
def EndsWrite (s : State r) (i : Fin r.config.publishers) : Act r → Prop
  | .publisher k (.act a) => k = i ∧ ∃ c p, s.publishers k = .running c p ∧ a.EndsWrite p
  | _ => False

/-- A step without the broker, on whose side the sockets of the publishers `blocked` take
nothing. -/
def QuietStep (blocked : Fin r.config.publishers → Prop) : State r → State r → Prop :=
  AllowedStep fun s a ↦ a.Quiet ∧ ∀ i, blocked i → ¬EndsWrite s i a

/-- Only the broker takes the task on: it connects, or it waits for its SUBACK, or it is about to,
once its SUBSCRIBE is written. -/
def SubscriberTask.NeedsBroker : SubscriberTask → Prop
  | .connecting | .awaiting _ => True
  | .subscribing w => w.store.fault w.store.writes = none
  | _ => False

/-- Only the broker takes the task on: it connects, or will. -/
def PublisherTask.NeedsBroker : PublisherTask → Prop
  | .unspawned | .connecting => True
  | _ => False

/-- The task has nothing more to write. -/
def PublisherTask.IsPastWrites : PublisherTask → Prop
  | .refused _ => True
  | .running _ p => p.phase.IsPastWrites
  | _ => False

/-! ### What only the broker takes on

Connecting, and waiting for a SUBACK, end by a packet or by the connection's end, and both are the
broker's doing. Time passing, Ctrl-C and what the other tasks do leave such a task where it is. -/

/-- Without the broker such a subscriber stays so. -/
theorem SubscriberTask.NeedsBroker.step {index : UInt32} {clock : ℕ} {stop : Bool}
    {task task' : SubscriberTask} {a : SubscriberAct} (h : task.NeedsBroker) (ha : a.Quiet)
    (hstep : task.step r index clock stop a = some task') : task'.NeedsBroker := by
  cases task with
  | connecting =>
    cases a with
    | connected | refused => exact ha.elim
    | subscribe | hear => cases hstep
  | subscribing w =>
    cases a with
    | subscribe =>
      have hwrite : w.store.fault w.store.writes = none := h
      rw [SubscriberTask.step, send_eq, hwrite] at hstep
      cases hstep
      trivial
    | connected | refused | hear => cases hstep
  | awaiting w =>
    cases a with
    | hear x =>
      cases x with
      | stop => cases hstep
      | _ => exact ha.elim
    | connected | refused | subscribe => cases hstep
  | receiving | ended => exact h.elim

/-- And so does such a publisher. -/
theorem PublisherTask.NeedsBroker.step {index clock : ℕ} {stop : Bool}
    {task task' : PublisherTask} {a : PublisherAct} (h : task.NeedsBroker) (ha : a.Quiet)
    (hstep : task.step r index clock stop a = some task') : task'.NeedsBroker := by
  cases task with
  | unspawned => cases a <;> cases hstep
  | connecting =>
    cases a with
    | connected | refused => exact ha.elim
    | act | panic => cases hstep
  | refused | running => exact h.elim

/-- Whatever the rest of the run does, a subscriber that needs the broker goes on needing it. -/
theorem subscriber_needsBroker_of_step {j : Fin r.config.subscribers}
    (h : (s.subscribers j).NeedsBroker) (hstep : QuietStep blocked s t) :
    (t.subscribers j).NeedsBroker := by
  obtain ⟨a, ⟨ha, -⟩, hstep⟩ := hstep
  rcases subscriber_of_step hstep j with hsame | ⟨b, rfl, hb⟩
  · rw [hsame]
    exact h
  · exact h.step ha hb

/-- The clock and the stop signal do not take it on. -/
theorem PublisherTask.needsBroker_update (task : PublisherTask)
    (f : Publisher.State → Publisher.State) :
    (task.update f).NeedsBroker ↔ task.NeedsBroker := by
  cases task <;> exact Iff.rfl

theorem publisher_needsBroker_of_step (h : (s.publishers i).NeedsBroker)
    (hstep : QuietStep blocked s t) : (t.publishers i).NeedsBroker := by
  obtain ⟨a, ⟨ha, -⟩, hstep⟩ := hstep
  cases a with
  | tick nanos =>
    cases hstep
    exact (PublisherTask.needsBroker_update _ _).2 h
  | settle | interrupt | joinPublishers | drain | joinSubscribers =>
    simp only [Run.step] at hstep
    repeat' split at hstep
    all_goals cases hstep
    all_goals first
      | exact h
      | exact (PublisherTask.needsBroker_update _ _).2 h
      | trivial
  | subscriber j b =>
    obtain ⟨task, -, rfl⟩ := Option.map_eq_some_iff.1 hstep
    exact h
  | publisher i' b =>
    obtain ⟨task, htask, rfl⟩ := Option.map_eq_some_iff.1 hstep
    by_cases hi : i = i'
    · subst hi
      show (Function.update s.publishers i task i).NeedsBroker
      rw [Function.update_self]
      exact h.step ha htask
    · show (Function.update s.publishers i' task i).NeedsBroker
      rw [Function.update_of_ne hi]
      exact h

/-- Without the end of a write, a publisher with something left to be written does not get past
it. -/
theorem publisher_not_isPastWrites_of_step (h : ¬(s.publishers i).IsPastWrites) (hi : blocked i)
    (hstep : QuietStep blocked s t) : ¬(t.publishers i).IsPastWrites := by
  obtain ⟨a, ⟨ha, hends⟩, hstep⟩ := hstep
  rcases publisher_of_step hstep i with ⟨rfl, htask⟩ | ⟨b, task, rfl, hb, htask⟩ |
    ⟨-, -, nanos, stop, htask⟩
  · rw [htask]
    exact id
  · rw [htask]
    cases hbefore : s.publishers i with
    | running c p =>
      rw [hbefore] at h hb
      cases b with
      | act b =>
        rw [PublisherTask.step] at hb
        split at hb
        · cases hb
        · obtain ⟨p', hp', rfl⟩ := Option.map_eq_some_iff.1 hb
          exact Publisher.not_isPastWrites_step h
            (fun hwrite ↦ hends i hi ⟨rfl, c, p, hbefore, hwrite⟩) hp'
      | connected | refused | panic => exact ha.elim
    | unspawned | connecting | refused =>
      rw [hbefore] at hb
      cases b with
      | act => cases hb
      | connected | refused | panic => exact ha.elim
  · rw [htask]
    cases hbefore : s.publishers i with
    | _ =>
      rw [hbefore] at h
      exact h

/-- A run with a task that needs the broker, or has something left to be written, has not come to
its report. -/
theorem Joined.not_reported (h : Joined s)
    (hneeds : (∃ j, (s.subscribers j).NeedsBroker) ∨
      ∃ i, (s.publishers i).NeedsBroker ∨ ¬(s.publishers i).IsPastWrites) :
    s.main ≠ .reported := by
  intro hmain
  rcases hneeds with ⟨j, hj⟩ | ⟨i, hi⟩
  · obtain ⟨result, hended⟩ := SubscriberTask.isEnded_iff.1 (h.subscribers hmain j)
    rw [hended] at hj
    exact hj
  · have hended := h.publishers (fun _ hs ↦ Main.noConfusion (hmain.symm.trans hs))
      (fun hs ↦ Main.noConfusion (hmain.symm.trans hs)) i
    rcases PublisherTask.isEnded_iff.1 hended with ⟨e, he⟩ | ⟨c, p, result, he, hphase⟩
    · rw [he] at hi
      exact hi.elim id fun hpast ↦ hpast trivial
    · rw [he] at hi
      refine hi.elim id fun hpast ↦ hpast ?_
      show p.phase.IsPastWrites
      rw [hphase]
      trivial

/-! ### The publishers return

A publisher by itself returns once it is stopped, as long as its writes can end. The run is put
together publisher by publisher; while one returns, the clock that all share goes on, which those
that come later are told of. -/

/-- What has happened in the meantime to whatever is not the publisher `i`: some time passed. -/
structure Meanwhile (i : Fin r.config.publishers) (s t : State r) : Prop where
  main : t.main = s.main
  stop : t.stop = s.stop
  subscribers : t.subscribers = s.subscribers
  others : ∀ k ≠ i, ∃ nanos, t.publishers k = (s.publishers k).update (later nanos false)

theorem Meanwhile.refl (i : Fin r.config.publishers) (s : State r) : Meanwhile i s s :=
  ⟨rfl, rfl, rfl, fun _ _ ↦ ⟨0, PublisherTask.update_later _⟩⟩

/-- Two spans of time are one. -/
theorem PublisherTask.update_update (task : PublisherTask) (m n : ℕ) :
    (task.update (later m false)).update (later n false) = task.update (later (m + n) false) := by
  cases task with
  | running c p =>
    show PublisherTask.running c { p with clock := p.clock + m + n, stop := _ } = _
    rw [Nat.add_assoc]
    rfl
  | _ => rfl

/-- While one publisher goes on for longer, the rest of the run stands still for longer. -/
theorem Meanwhile.trans (h : Meanwhile i s t) (h' : Meanwhile i t u) : Meanwhile i s u where
  main := h'.main.trans h.main
  stop := h'.stop.trans h.stop
  subscribers := h'.subscribers.trans h.subscribers
  others k hk := by
    obtain ⟨m, hm⟩ := h.others k hk
    obtain ⟨n, hn⟩ := h'.others k hk
    exact ⟨m + n, by rw [hn, hm, PublisherTask.update_update]⟩

/-- A step of a publisher by itself is a step of the run. -/
theorem quietStep_of_unassisted {c : Publisher.Setting} {p p' : Publisher.State}
    (h : Publisher.Unassisted (blocked i) c p p') (hs : s.publishers i = .running c p) :
    ∃ t, QuietStep blocked s t ∧ t.publishers i = .running c p' ∧ Meanwhile i s t := by
  obtain ⟨a, ha, hends, hp'⟩ := h
  have hwrites : ∀ k, blocked k → ¬EndsWrite s k (.publisher i (.act a)) := by
    rintro k hk ⟨rfl, c', p'', hbefore, hwrite⟩
    cases hs.symm.trans hbefore
    exact hends ⟨hk, hwrite⟩
  have hown : ofRun a = false → PublisherAct.Quiet (.act a) →
      ∃ t, QuietStep blocked s t ∧ t.publishers i = .running c p' ∧ Meanwhile i s t := by
    intro hown hquiet
    have htask : (s.publishers i).step r i s.clock s.stop (.act a) = some (.running c p') := by
      rw [hs, PublisherTask.step, hown, if_neg Bool.false_ne_true, hp']
      rfl
    refine ⟨{ s with publishers := Function.update s.publishers i (.running c p') },
      ⟨.publisher i (.act a), ⟨hquiet, hwrites⟩, ?_⟩, Function.update_self i _ _, rfl, rfl, rfl,
      fun k hk ↦ ⟨0, ?_⟩⟩
    · rw [Run.step, htask]
      rfl
    · exact (Function.update_of_ne hk _ _).trans (PublisherTask.update_later _)
  cases a with
  | tick nanos =>
    cases hp'
    refine ⟨s.tick nanos, ⟨.tick nanos, ⟨trivial, fun _ _ ↦ id⟩, rfl⟩, ?_, rfl, rfl, rfl,
      fun k _ ↦ ⟨nanos, ?_⟩⟩
    · show (s.publishers i).update _ = _
      rw [hs]
      rfl
    · cases hk : s.publishers k <;>
        simp only [State.tick, hk, PublisherTask.update, later, Bool.false_or]
  | deliver | raiseStop | dropStop | fail => exact ha.elim
  | advance | halt | acknowledge | timeout => exact hown rfl trivial

/-- The steps that a publisher makes by itself are steps of the run, one after the other. -/
theorem reaches_of_unassisted {c : Publisher.Setting} {p p' : Publisher.State}
    (h : Reaches (Publisher.Unassisted (blocked i) c) p p')
    (hs : s.publishers i = .running c p) :
    ∃ t, Reaches (QuietStep blocked) s t ∧ t.publishers i = .running c p' ∧ Meanwhile i s t := by
  induction h with
  | refl => exact ⟨s, .refl, hs, .refl i s⟩
  | tail _ hstep ih =>
    obtain ⟨t, ht, hti, hst⟩ := ih
    obtain ⟨u, hu, hui, htu⟩ := quietStep_of_unassisted hstep hti
    exact ⟨u, ht.tail hu, hui, hst.trans htu⟩

/-- The publisher, whose socket may be blocked, returns once it is left to itself, if it has not
returned already. -/
def PublisherTask.Stopped (blocked : Prop) : PublisherTask → Prop
  | .refused _ => True
  | .running _ p => Publisher.CanFinish blocked p
  | _ => False

/-- Time does not take the stop signal back. -/
theorem PublisherTask.Stopped.later {blocked : Prop} {task : PublisherTask}
    (h : task.Stopped blocked) (nanos : ℕ) :
    (task.update (Run.later nanos false)).Stopped blocked := by
  cases task with
  | running c p => exact h
  | refused e => trivial
  | unspawned | connecting => exact h.elim

/-- One publisher that is stopped returns, and the others are where they were. -/
theorem reaches_publisher_ended (h : (s.publishers i).Stopped (blocked i)) :
    ∃ t, Reaches (QuietStep blocked) s t ∧ (t.publishers i).isEnded = true ∧ Meanwhile i s t := by
  cases hi : s.publishers i with
  | refused e => exact ⟨s, .refl, by rw [hi]; rfl, .refl i s⟩
  | running c p =>
    rw [hi] at h
    obtain ⟨p', hreaches, hreturned⟩ := Publisher.can_return (c := c) h
    obtain ⟨result, hresult⟩ := not_forall.1 hreturned
    obtain ⟨t, ht, hti, hmeanwhile⟩ := reaches_of_unassisted hreaches hi
    refine ⟨t, ht, PublisherTask.isEnded_iff.2 (Or.inr ⟨c, p', result, hti, ?_⟩), hmeanwhile⟩
    exact not_not.1 hresult
  | unspawned | connecting =>
    rw [hi] at h
    exact h.elim

theorem PublisherTask.isEnded_later {task : PublisherTask} (h : task.isEnded = true) (nanos : ℕ) :
    (task.update (Run.later nanos false)).isEnded = true :=
  (stays_update h (Run.later nanos false) fun _ ↦ rfl).isEnded

/-- **Publishers that are stopped return**, one after the other. -/
theorem reaches_publishers_ended (h : ∀ i, (s.publishers i).Stopped (blocked i))
    (T : Finset (Fin r.config.publishers)) :
    ∃ t, Reaches (QuietStep blocked) s t ∧ t.main = s.main ∧ t.stop = s.stop ∧
      t.subscribers = s.subscribers ∧ (∀ i, (t.publishers i).Stopped (blocked i) ∨ i ∈ T) ∧
      ∀ i ∈ T, (t.publishers i).isEnded = true := by
  induction T using Finset.induction_on with
  | empty => exact ⟨s, .refl, rfl, rfl, rfl, fun i ↦ Or.inl (h i), fun i hi ↦ by simp at hi⟩
  | insert k T hk ih =>
    obtain ⟨t, ht, hmain, hstop, hsubscribers, hstopped, hended⟩ := ih
    obtain ⟨u, hu, huk, hmeanwhile⟩ :=
      reaches_publisher_ended ((hstopped k).resolve_right hk)
    refine ⟨u, ht.trans hu, hmeanwhile.main.trans hmain, hmeanwhile.stop.trans hstop,
      hmeanwhile.subscribers.trans hsubscribers, fun i ↦ ?_, fun i hi ↦ ?_⟩
    · by_cases hik : i = k
      · exact Or.inr (hik ▸ Finset.mem_insert_self k T)
      · obtain ⟨nanos, hnanos⟩ := hmeanwhile.others i hik
        rw [hnanos]
        exact (hstopped i).imp (fun h ↦ h.later nanos) Finset.mem_insert_of_mem
    · by_cases hik : i = k
      · exact hik ▸ huk
      · obtain ⟨nanos, hnanos⟩ := hmeanwhile.others i hik
        rw [hnanos]
        exact PublisherTask.isEnded_later (hended i ((Finset.mem_insert.1 hi).resolve_left hik)) _

/-! ### The subscribers end -/

/-- A subscriber that does not need the broker ends at the stop signal. -/
theorem exists_quiet_end {j : Fin r.config.subscribers} (h : ¬(s.subscribers j).NeedsBroker)
    (hstop : s.stop = true) : ∃ task, task.isEnded = true ∧ Reaches (QuietStep blocked) s
      { s with subscribers := Function.update s.subscribers j task } := by
  have hstep : ∀ {a : SubscriberAct} {x : SubscriberTask}, a.Quiet →
      (s.subscribers j).step r (.ofNat j) s.clock s.stop a = some x →
      Reaches (QuietStep blocked) s
        { s with subscribers := Function.update s.subscribers j x } := by
    intro a x ha htask
    refine .single ⟨.subscriber j a, ⟨ha, fun _ _ ↦ id⟩, ?_⟩
    rw [Run.step, htask]
    rfl
  cases hj : s.subscribers j with
  | connecting | awaiting =>
    rw [hj] at h
    exact absurd trivial h
  | subscribing w =>
    rw [hj] at h
    obtain ⟨e, he⟩ := Option.ne_none_iff_exists'.1 h
    refine ⟨_, rfl, hstep (a := .subscribe) (x := .ended (.error (.mqtt e))) trivial ?_⟩
    rw [hj, SubscriberTask.step, send_eq, he]
    rfl
  | receiving l w =>
    refine ⟨_, rfl, hstep (a := .hear .stop) (x := .ended (.ok l.samples)) trivial ?_⟩
    rw [hj, hstop]
    cases l <;> rfl
  | ended result =>
    refine ⟨.ended result, rfl, ?_⟩
    rw [← hj, Function.update_eq_self]

/-- **Subscribers that do not need the broker end at the stop signal**, one after the other. -/
theorem reaches_subscribers_ended (h : ∀ j, ¬(s.subscribers j).NeedsBroker)
    (hstop : s.stop = true) (T : Finset (Fin r.config.subscribers)) :
    ∃ t, Reaches (QuietStep blocked) s t ∧ t.main = s.main ∧ t.stop = true ∧
      (∀ j, ¬(t.subscribers j).NeedsBroker) ∧ ∀ j ∈ T, (t.subscribers j).isEnded = true := by
  induction T using Finset.induction_on with
  | empty => exact ⟨s, .refl, rfl, hstop, h, fun j hj ↦ by simp at hj⟩
  | insert k T _ ih =>
    obtain ⟨t, ht, hmain, hstop, hneeds, hended⟩ := ih
    obtain ⟨task, htask, hstep⟩ := exists_quiet_end (hneeds k) hstop
    refine ⟨_, ht.trans hstep, hmain, hstop, fun j ↦ ?_, fun j hj ↦ ?_⟩
    · by_cases hjk : j = k
      · subst hjk
        show ¬(Function.update t.subscribers j task j).NeedsBroker
        rw [Function.update_self]
        cases task with
        | ended => exact not_false
        | _ => cases htask
      · show ¬(Function.update t.subscribers k task j).NeedsBroker
        rw [Function.update_of_ne hjk]
        exact hneeds j
    · by_cases hjk : j = k
      · subst hjk
        show (Function.update t.subscribers j task j).isEnded = true
        rw [Function.update_self]
        exact htask
      · show (Function.update t.subscribers k task j).isEnded = true
        rw [Function.update_of_ne hjk]
        exact hended j ((Finset.mem_insert.1 hj).resolve_left hjk)

/-! ### The report

`run` goes from stage to stage as the tasks it waits for have ended. From each stage the report can
be reached if the tasks can be brought to their end, later stages first. -/

/-- What `run` is at tells of the publishers, and of the stop signal. -/
structure Staged (s : State r) : Prop where
  unspawned : ∀ wake, s.main = .settling wake → ∀ i, s.publishers i = .unspawned
  stopped : s.main = .joining → s.stop = true

/-- While the subscribers settle no publisher is spawned, and they are joined only once the stop
signal is raised. -/
theorem always_staged (r : Setting) : Always Step (initial r) Staged := by
  refine always_of_invariant ⟨fun _ _ _ ↦ rfl, fun h ↦ Main.noConfusion h⟩ fun s t h hstep ↦ ?_
  cases move_of_step hstep with
  | tick nanos =>
    refine ⟨fun wake hmain i ↦ ?_, h.stopped⟩
    show (s.publishers i).update _ = .unspawned
    rw [h.unspawned wake hmain i]
    rfl
  | settle | joinPublishers | joinSubscribers =>
    exact ⟨fun _ hmain ↦ Main.noConfusion hmain, fun hmain ↦ Main.noConfusion hmain⟩
  | interrupt hne => exact ⟨fun wake hmain ↦ absurd hmain (hne wake), fun _ ↦ rfl⟩
  | drain => exact ⟨fun _ hmain ↦ Main.noConfusion hmain, fun _ ↦ rfl⟩
  | subscriber => exact ⟨h.unspawned, h.stopped⟩
  | @publisher i a task htask =>
    refine ⟨fun wake hmain ↦ ?_, h.stopped⟩
    rw [h.unspawned wake hmain i] at htask
    cases htask

/-- The run can come to its report without the broker. -/
def CanReport (blocked : Fin r.config.publishers → Prop) (s : State r) : Prop :=
  Can (QuietStep blocked) s (·.main = .reported)

/-- A run can report if it can do so after a step without the broker. -/
theorem CanReport.of_step {a : Act r} (h : CanReport blocked t) (hstep : Run.step s a = some t)
    (ha : a.Quiet) (hends : ∀ i, ¬EndsWrite s i a) : CanReport blocked s :=
  Can.of_step ⟨a, ⟨ha, fun i _ ↦ hends i⟩, hstep⟩ h

/-- From where `run` joins the subscribers. -/
theorem canReport_of_joining (hmain : s.main = .joining) (hstop : s.stop = true)
    (h : ∀ j, ¬(s.subscribers j).NeedsBroker) : CanReport blocked s := by
  obtain ⟨t, ht, htmain, -, -, hended⟩ := reaches_subscribers_ended h hstop Finset.univ
  have hjoin : Run.step t .joinSubscribers = some { t with main := .reported } := by
    rw [Run.step, htmain, hmain]
    exact if_pos fun j ↦ hended j (Finset.mem_univ j)
  have hreported : CanReport blocked { t with main := .reported } := .here rfl
  exact .of_reaches ht (hreported.of_step hjoin trivial fun _ ↦ id)

/-- From where it lets the last messages arrive. -/
theorem canReport_of_draining {wake : ℕ} (hmain : s.main = .draining wake)
    (h : ∀ j, ¬(s.subscribers j).NeedsBroker) : CanReport blocked s := by
  have hdrain : Run.step (s.tick wake) .drain =
      some { (s.tick wake).raiseStop with main := .joining } := by
    rw [Run.step, show (s.tick wake).main = .draining wake from hmain]
    exact if_pos (Nat.le_add_left _ _)
  have hjoining : CanReport blocked { (s.tick wake).raiseStop with main := .joining } :=
    canReport_of_joining rfl rfl h
  have hslept : CanReport blocked (s.tick wake) := hjoining.of_step hdrain trivial fun _ ↦ id
  exact hslept.of_step (a := .tick wake) rfl trivial fun _ ↦ id

/-- From where it waits for the publishers. -/
theorem canReport_of_publishing (hmain : s.main = .publishing)
    (hpublishers : ∀ i, ¬(s.publishers i).NeedsBroker)
    (hpast : ∀ i, blocked i → (s.publishers i).IsPastWrites)
    (hsubscribers : ∀ j, ¬(s.subscribers j).NeedsBroker) : CanReport blocked s := by
  have hinterrupt : Run.step s .interrupt = some s.raiseStop := by
    rw [Run.step, hmain]
  have hstopped : ∀ i, (s.raiseStop.publishers i).Stopped (blocked i) := by
    intro i
    show ((s.publishers i).update _).Stopped (blocked i)
    have hi := hpublishers i
    have hpasti := hpast i
    cases h : s.publishers i with
    | unspawned | connecting =>
      rw [h] at hi
      exact absurd trivial hi
    | refused e => trivial
    | running c p =>
      rw [h] at hpasti
      exact ⟨rfl, hpasti⟩
  obtain ⟨t, ht, htmain, -, htsubscribers, -, hended⟩ :=
    reaches_publishers_ended hstopped Finset.univ
  have hjoin : Run.step t .joinPublishers =
      some { t with main := .draining (t.clock + r.config.drain) } := by
    rw [Run.step, htmain, show s.raiseStop.main = .publishing from hmain]
    exact if_pos fun i ↦ hended i (Finset.mem_univ i)
  have hdraining : CanReport blocked { t with main := .draining (t.clock + r.config.drain) } := by
    refine canReport_of_draining rfl fun j ↦ ?_
    show ¬(t.subscribers j).NeedsBroker
    rw [htsubscribers]
    exact hsubscribers j
  have hjoined : CanReport blocked s.raiseStop :=
    .of_reaches ht (hdraining.of_step hjoin trivial fun _ ↦ id)
  exact hjoined.of_step hinterrupt trivial fun _ ↦ id

/-- From any stage, the settling included. -/
theorem Staged.canReport (h : Staged s) (hpublishers : ∀ i, ¬(s.publishers i).NeedsBroker)
    (hpast : ∀ i, blocked i → (s.publishers i).IsPastWrites)
    (hsubscribers : ∀ j, ¬(s.subscribers j).NeedsBroker) : CanReport blocked s := by
  cases hmain : s.main with
  | reported => exact .here hmain
  | joining => exact canReport_of_joining hmain (h.stopped hmain) hsubscribers
  | draining wake => exact canReport_of_draining hmain hsubscribers
  | publishing => exact canReport_of_publishing hmain hpublishers hpast hsubscribers
  | settling wake =>
    -- The publishers are yet to connect: there are none.
    have hnone : ∀ i : Fin r.config.publishers, False := by
      intro i
      have hi := hpublishers i
      rw [h.unspawned wake hmain i] at hi
      exact hi trivial
    have hsettle : Run.step (s.tick wake) .settle = some { s.tick wake with
        main := .publishing, publishers := fun _ ↦ .connecting } := by
      rw [Run.step, show (s.tick wake).main = .settling wake from hmain]
      exact if_pos (Nat.le_add_left _ _)
    have hpublishing : CanReport blocked { s.tick wake with
        main := .publishing, publishers := fun _ ↦ .connecting } :=
      canReport_of_publishing rfl (fun i ↦ (hnone i).elim) (fun i ↦ (hnone i).elim) hsubscribers
    have hslept : CanReport blocked (s.tick wake) := hpublishing.of_step hsettle trivial fun _ ↦ id
    exact hslept.of_step (a := .tick wake) rfl trivial fun _ ↦ id

/-- **When a run comes to its report.** If the broker falls silent for good, and takes nothing more
from the sockets of some publishers, a run can still come to its report exactly if none of its tasks
is connecting, or yet to connect, no subscriber waits for its SUBACK, and none of those publishers
has anything left to be written: the stop signal ends all others, and nothing ends these. -/
theorem can_report_iff (r : Setting) : Always Step (initial r) fun s ↦
    ∀ blocked : Fin r.config.publishers → Prop,
      (Can (QuietStep blocked) s (·.main = .reported) ↔
        (∀ j, ¬(s.subscribers j).NeedsBroker) ∧ (∀ i, ¬(s.publishers i).NeedsBroker) ∧
          ∀ i, blocked i → (s.publishers i).IsPastWrites) := by
  intro s hs blocked
  constructor
  · rintro ⟨t, ht, hmain⟩
    have hjoined := always_joined r t (hs.trans (reaches_of_allowed ht))
    refine ⟨fun j hj ↦ ?_, fun i hi ↦ ?_, fun i hblocked ↦ ?_⟩
    · have hj' : (t.subscribers j).NeedsBroker :=
        (always_of_invariant (I := fun u : State r ↦ (u.subscribers j).NeedsBroker) hj
          fun _ _ h hstep ↦ subscriber_needsBroker_of_step h hstep) t ht
      exact hjoined.not_reported (Or.inl ⟨j, hj'⟩) hmain
    · have hi' : (t.publishers i).NeedsBroker :=
        (always_of_invariant (I := fun u : State r ↦ (u.publishers i).NeedsBroker) hi
          fun _ _ h hstep ↦ publisher_needsBroker_of_step h hstep) t ht
      exact hjoined.not_reported (Or.inr ⟨i, Or.inl hi'⟩) hmain
    · by_contra hi
      have hi' : ¬(t.publishers i).IsPastWrites :=
        (always_of_invariant (I := fun u : State r ↦ ¬(u.publishers i).IsPastWrites) hi
          fun _ _ h hstep ↦ publisher_not_isPastWrites_of_step h hblocked hstep) t ht
      exact hjoined.not_reported (Or.inr ⟨i, Or.inr hi'⟩) hmain
  · rintro ⟨hsubscribers, hpublishers, hpast⟩
    exact (always_staged r s hs).canReport hpublishers hpast hsubscribers

end Run

end Bench

end PulsemqCli
