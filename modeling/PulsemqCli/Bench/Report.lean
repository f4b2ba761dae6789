import PulsemqCli.Bench.Publisher.Window
import PulsemqCli.Bench.Run
import PulsemqCli.Bench.Stats

/-!
# The end of a benchmark run

What the tasks return, and the report `run` makes of it once it has joined them. A publisher is
joined before the drain and a subscriber before the report; what they returned stays as it is.

`run` joins its tasks in the order of their numbers, and a task that fails does not keep the others
from being joined. Its error is among the outcomes, and a task that has panicked counts as one that
failed. What a report is made of is a function of the state when the last task is joined, and is
written as such: `State.report`.

That this is right needs a lemma on the order of things. A result that is read when the task is
joined is the one that is there at the report (`PublisherTask.Stays`). For the counters it is not
so; who can still change them is the matter of `Bench.Snapshot`.
-/

namespace PulsemqCli

namespace Bench

/-- The error a publisher's failure is returned as. -/
def Publisher.Failure.error (display : Error → String) (index : UInt32) :
    Publisher.Failure → Error
  | .mqtt e => .mqtt e
  | .replyStream e => .usage ("publisher " ++ toString index.toNat ++
      ": the broker's reply stream failed: " ++ display (.mqtt e))
  | .connectionClosed sent => .usage ("publisher " ++ toString index.toNat ++
      ": the broker closed the connection after " ++ toString sent ++
      " message(s), before acknowledging the rest")
  | .unfinished => .usage ("publisher " ++ toString index.toNat ++
      ": acknowledgement task did not finish within the drain window; " ++
      "the broker likely never closed its half of the socket after DISCONNECT (3.14.4)")
  | .panicked e => .usage ("task panicked: " ++ e)

namespace Run

open Protocol Transition

variable {r : Setting} {s s' : State r}

/-! ### What the tasks return -/

/-- What the task returned, if it has. -/
def SubscriberTask.result : SubscriberTask → Option (Except Error (List ℕ))
  | .ended result => some result
  | _ => none

/-- What the task returned, if it has. -/
def PublisherTask.result (display : Error → String) :
    PublisherTask → Option (Except Error (List ℕ))
  | .refused e => some (.error e)
  | .running c p =>
    match p.phase with
    | .returned result => some (result.mapError (·.error display c.index))
    | _ => none
  | _ => none

/-- One of a publisher's counters. -/
def PublisherTask.count (counter : Publisher.State → ℕ) : PublisherTask → ℕ
  | .running _ p => counter p
  | _ => 0

/-- The Reason Codes a publisher was refused with. -/
def PublisherTask.refusals : PublisherTask → List ReasonCode
  | .running _ p => p.refused
  | _ => []

namespace State

variable (display : Error → String) (s : State r)

/-- The results of the publishers, each of which has returned by the time they are looked at. -/
def publisherResults : List (Except Error (List ℕ)) :=
  List.ofFn fun i ↦ ((s.publishers i).result display).getD (.ok [])

/-- The results of the subscribers, likewise. -/
def subscriberResults : List (Except Error (List ℕ)) :=
  List.ofFn fun j ↦ ((s.subscribers j).result).getD (.ok [])

/-- A counter of the whole run. -/
def total (counter : Publisher.State → ℕ) : ℕ :=
  (List.ofFn fun i ↦ (s.publishers i).count counter).sum

/-- `counters.snapshot()`. -/
def snapshot : Totals where
  published := s.total (·.published)
  acknowledged := s.total (·.acknowledged)
  bytesSent := s.total (·.bytesSent)
  publishErrors := s.total (·.publishErrors)
  refused := tally (List.ofFn fun i ↦ (s.publishers i).refusals).flatten

/-- The report. -/
def report : Report where
  totals := s.snapshot
  taskFailures :=
    collectFailures display (joinTasks (s.publisherResults display)).2 "publisher" ++
      collectFailures display (joinTasks s.subscriberResults).2 "subscriber"
  ack := (joinTasks (s.publisherResults display)).1.summary.1
  endToEnd := (joinTasks s.subscriberResults).1.summary.1
  endToEndDisabled := 0 < r.config.subscribers && !r.config.measuresEndToEnd

end State

/-! ### What is returned stays returned -/

/-- The write side of a publisher that has returned does nothing more. -/
theorem phase_of_returned {c : Publisher.Setting} {p p' : Publisher.State}
    {result : Except Publisher.Failure (List ℕ)} (h : p.phase = .returned result)
    (hm : Publisher.Move c p p') : p'.phase = .returned result := by
  cases hm with
  | tick | deliver | raiseStop | dropStop | readEof | readError | complete | completeUnknown
  | freeRefused | free | close => exact h
  | read => exact (Publisher.onPacket_phase _ _).trans h
  | receive hphase | drained hphase | release hphase | releaseFails hphase
  | releaseIgnored hphase | quotaReached hphase | quotaLeft hphase | stopSeen hphase
  | stopUnseen hphase | due hphase | haltPacing hphase | unacknowledged hphase
  | acquireClosed hphase | acquire hphase | haltAcquiring hphase | assign hphase
  | assignNone hphase | insert hphase | insertNone hphase | write hphase | writeFails hphase
  | count hphase | forfeit hphase | settled hphase | unsettled hphase | wake hphase
  | disconnect hphase | disconnectFails hphase | joined hphase | timeout hphase =>
    exact Publisher.Phase.noConfusion (hphase.symm.trans h)

/-- A task that has returned is one that is refused, or whose run is at its end. -/
theorem PublisherTask.isEnded_iff {t : PublisherTask} :
    t.isEnded = true ↔ (∃ e, t = .refused e) ∨
      ∃ c p result, t = .running c p ∧ p.phase = .returned result := by
  constructor
  · intro h
    unfold PublisherTask.isEnded at h
    split at h
    next e => exact Or.inl ⟨e, rfl⟩
    next c p =>
      split at h
      next result hphase => exact Or.inr ⟨c, p, result, rfl, hphase⟩
      next => cases h
    next => cases h
  · rintro (⟨e, rfl⟩ | ⟨c, p, result, rfl, hphase⟩)
    · rfl
    · rw [PublisherTask.isEnded, hphase]

/-- A publisher that has returned stays as it is, its acknowledgements apart. -/
inductive PublisherTask.Stays : PublisherTask → PublisherTask → Prop where
  | refused (e : Error) : Stays (.refused e) (.refused e)
  | returned {c : Publisher.Setting} {p p' : Publisher.State}
      {result : Except Publisher.Failure (List ℕ)} : p.phase = .returned result →
      p'.phase = .returned result → Stays (.running c p) (.running c p')

theorem PublisherTask.Stays.isEnded {t t' : PublisherTask} (h : t.Stays t') :
    t'.isEnded = true := by
  cases h with
  | refused e => rfl
  | returned _ hphase => exact PublisherTask.isEnded_iff.2 (Or.inr ⟨_, _, _, rfl, hphase⟩)

/-- A task that stays has the same result. -/
theorem PublisherTask.Stays.result {t t' : PublisherTask} (h : t.Stays t')
    (display : Error → String) : t'.result display = t.result display := by
  cases h with
  | refused e => rfl
  | returned hphase hphase' =>
    simp only [PublisherTask.result, hphase, hphase']

/-- The clock and the stop signal leave a result as it is. -/
theorem stays_update {t : PublisherTask} (h : t.isEnded = true)
    (f : Publisher.State → Publisher.State) (hf : ∀ p, (f p).phase = p.phase) :
    t.Stays (t.update f) := by
  rcases PublisherTask.isEnded_iff.1 h with ⟨e, rfl⟩ | ⟨c, p, result, rfl, hphase⟩
  · exact .refused e
  · exact .returned hphase ((hf p).trans hphase)

/-- **Once the publishers are spawned, one that has returned stays so.** -/
theorem stays_of_move (hm : Move s s') (hmain : ∀ wake, s.main ≠ .settling wake)
    {i : Fin r.config.publishers} (h : (s.publishers i).isEnded = true) :
    (s.publishers i).Stays (s'.publishers i) := by
  have hself : (s.publishers i).Stays (s.publishers i) := by
    rcases PublisherTask.isEnded_iff.1 h with ⟨e, he⟩ | ⟨c, p, result, he, hphase⟩
    · rw [he]
      exact .refused e
    · rw [he]
      exact .returned hphase hphase
  cases hm with
  | tick | interrupt | drain => exact stays_update h _ fun _ ↦ rfl
  | settle hsettling => exact absurd hsettling (hmain _)
  | joinPublishers | joinSubscribers | subscriber => exact hself
  | @publisher i' a t ht =>
    by_cases hi : i = i'
    · subst hi
      show (s.publishers i).Stays (Function.update s.publishers i t i)
      rw [Function.update_self]
      rcases PublisherTask.isEnded_iff.1 h with ⟨e, he⟩ | ⟨c, p, result, he, hphase⟩
      · rw [he] at ht
        cases ht
      · rw [he] at ht ⊢
        cases a with
        | act a =>
          rw [PublisherTask.step] at ht
          split at ht
          · cases ht
          · obtain ⟨p', hp', rfl⟩ := Option.map_eq_some_iff.1 ht
            exact .returned hphase (phase_of_returned hphase (Publisher.move_of_step ⟨a, hp'⟩))
        | panic =>
          obtain ⟨p', hp', -⟩ := Option.map_eq_some_iff.1 ht
          obtain ⟨hbefore, -⟩ := Publisher.panic_eq hp'
          rw [hphase] at hbefore
          rcases hbefore with h | h | h <;> cases h
        | connected | refused => cases ht
    · show (s.publishers i).Stays (Function.update s.publishers i' t i)
      rw [Function.update_of_ne hi]
      exact hself

theorem SubscriberTask.isEnded_iff {t : SubscriberTask} :
    t.isEnded = true ↔ ∃ result, t = .ended result := by
  constructor
  · intro h
    cases t with
    | ended result => exact ⟨result, rfl⟩
    | _ => cases h
  · rintro ⟨result, rfl⟩
    rfl

/-- A subscriber that has ended stays as it is. -/
theorem subscriber_stays_of_move (hm : Move s s') {j : Fin r.config.subscribers}
    (h : (s.subscribers j).isEnded = true) : s'.subscribers j = s.subscribers j := by
  cases hm with
  | @subscriber j' a t ht =>
    by_cases hj : j = j'
    · subst hj
      obtain ⟨result, hresult⟩ := SubscriberTask.isEnded_iff.1 h
      rw [hresult] at ht
      cases a <;> cases ht
    · exact Function.update_of_ne hj _ _
  | _ => rfl

/-! ### What has been joined -/

/-- Every publisher has returned. -/
def PublishersEnded (s : State r) : Prop :=
  ∀ i, (s.publishers i).isEnded = true

/-- Every subscriber has returned. -/
def SubscribersEnded (s : State r) : Prop :=
  ∀ j, (s.subscribers j).isEnded = true

/-- `run` goes on to its drain once it has joined the publishers, and to its report once it has
joined the subscribers. -/
structure Joined (s : State r) : Prop where
  publishers : (∀ wake, s.main ≠ .settling wake) → s.main ≠ .publishing → PublishersEnded s
  subscribers : s.main = .reported → SubscribersEnded s

theorem Joined.move (h : Joined s) (hm : Move s s') : Joined s' := by
  have hsubscribers : SubscribersEnded s → SubscribersEnded s' := fun hended j ↦ by
    rw [subscriber_stays_of_move hm (hended j)]
    exact hended j
  have hpublishers : (∀ wake, s.main ≠ .settling wake) → PublishersEnded s →
      PublishersEnded s' :=
    fun hmain hended i ↦ (stays_of_move hm hmain (hended i)).isEnded
  cases hm with
  | tick | subscriber | publisher =>
    exact ⟨fun hmain hne ↦ hpublishers hmain (h.publishers hmain hne),
      fun hmain ↦ hsubscribers (h.subscribers hmain)⟩
  | interrupt hmain =>
    exact ⟨fun _ hne ↦ hpublishers hmain (h.publishers hmain hne),
      fun hreported ↦ hsubscribers (h.subscribers hreported)⟩
  | settle => exact ⟨fun _ hne ↦ absurd rfl hne, fun hmain ↦ Main.noConfusion hmain⟩
  | joinPublishers _ hended => exact ⟨fun _ _ ↦ hended, fun hmain ↦ Main.noConfusion hmain⟩
  | drain hmain =>
    have hsettling : ∀ wake, s.main ≠ .settling wake :=
      fun _ h ↦ Main.noConfusion (hmain.symm.trans h)
    have hpublishing : s.main ≠ .publishing := fun h ↦ Main.noConfusion (hmain.symm.trans h)
    exact ⟨fun _ _ ↦ hpublishers hsettling (h.publishers hsettling hpublishing),
      fun hmain ↦ Main.noConfusion hmain⟩
  | joinSubscribers hmain hended =>
    have hsettling : ∀ wake, s.main ≠ .settling wake :=
      fun _ h ↦ Main.noConfusion (hmain.symm.trans h)
    have hpublishing : s.main ≠ .publishing := fun h ↦ Main.noConfusion (hmain.symm.trans h)
    exact ⟨fun _ _ ↦ hpublishers hsettling (h.publishers hsettling hpublishing), fun _ ↦ hended⟩

/-- **By the report, every task has returned.** -/
theorem always_joined (r : Setting) : Always Step (initial r) Joined :=
  always_of_invariant
    ⟨fun h _ ↦ absurd rfl (h _), fun h ↦ Main.noConfusion h⟩
    fun _ _ h hstep ↦ h.move (move_of_step hstep)

end Run

end Bench

end PulsemqCli
