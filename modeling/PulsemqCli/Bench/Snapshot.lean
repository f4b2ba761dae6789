import PulsemqCli.Bench.Readiness
import PulsemqCli.Bench.Report

/-!
# Who can still count when the report is taken

The counters are read once every task has been joined. The ack task of a publisher is joined at the
end of its `run`, or aborted there; but `run` returns early where a write of the send loop fails, or
is left by a panic, and then the ack task is left to itself: its handle is dropped, which does not
abort it. A run is settled if no task that counts is alive at its report.

`Attended` is the invariant of a publisher: if it has returned, its ack task is over. Two kinds of
steps break it, a write of the send loop that fails and a panic, and only while the ack task runs.
`Abandons` names these as steps of a run. So a run that makes none of them is settled, and
`can_abandon` shows that they are not idle exceptions: every publisher can be made to leave its ack
task behind, by one PUBREC that comes before the first message and a PUBREL that cannot be written.

A subscriber counts in the task that is joined, and has no other.
-/

namespace PulsemqCli

namespace Bench

open Protocol Transition

/-! ### The ack task of a publisher

The end of `run` is reached from the send loop by leaving it, and past that the write side returns
only by joining the ack task or aborting it. An early return comes straight from one of the two
writes in the loop. -/

namespace Publisher

variable {c : Setting} {s s' : State}

/-- The ack task has finished, or been aborted. -/
def AckPhase.IsOver : AckPhase → Prop
  | .finished _ | .aborted => True
  | _ => False

/-- The write side is at a write whose failure ends `run` at once. -/
def Phase.InSendLoop : Phase → Prop
  | .releasing .top _ | .writing _ => True
  | _ => False

/-- The write side has returned, or is about to return early. -/
def Phase.IsGone : Phase → Prop
  | .failing _ _ | .returned _ => True
  | _ => False

/-- A publisher that has returned left no ack task behind. -/
def Attended (s : State) : Prop :=
  s.phase.IsGone → s.ack.IsOver

theorem not_isGone_leave (s : State) : ¬(leave s).phase.IsGone := by
  rcases leave_phase s with h | ⟨deadline, h⟩
  all_goals
    rw [h]
    exact id

theorem not_isGone_drained (s : State) (d : Drain) : ¬(drained s d).phase.IsGone := by
  rcases drained_phase s d with h | h | ⟨deadline, wake, h⟩
  all_goals
    rw [h]
    exact id

theorem Phase.InSendLoop.eq {phase : Phase} (h : phase.InSendLoop) :
    (∃ id, phase = .releasing .top id) ∨ ∃ p, phase = .writing p := by
  unfold InSendLoop at h
  split at h
  next id => exact Or.inl ⟨id, rfl⟩
  next p => exact Or.inr ⟨p, rfl⟩
  next => exact h.elim

/-- From the send loop's writes only their failure leads to an early return. -/
theorem eq_fail_of_isGone {a : Act} (h : step c s a = some s') (hphase : s.phase.InSendLoop)
    (hgone : s'.phase.IsGone) : ∃ e, a = .fail e := by
  have hstays : s'.phase ≠ s.phase := by
    intro hsame
    rw [hsame] at hgone
    rcases hphase.eq with ⟨id, hs⟩ | ⟨p, hs⟩
    all_goals
      rw [hs] at hgone
      exact hgone
  cases a with
  | fail e => exact ⟨e, rfl⟩
  | tick | deliver | raiseStop | dropStop =>
    cases h
    exact absurd rfl hstays
  | acknowledge => exact absurd (acknowledge_phase h) hstays
  | advance =>
    rcases hphase.eq with ⟨id, hs⟩ | ⟨p, hs⟩
    all_goals
      simp only [step, advance, hs, Option.some.injEq] at h
      subst h
      exact hgone.elim
  | halt =>
    rcases hphase.eq with ⟨id, hs⟩ | ⟨p, hs⟩
    all_goals simp [step, halt, hs] at h
  | timeout =>
    rcases hphase.eq with ⟨id, hs⟩ | ⟨p, hs⟩
    all_goals simp [step, timeout, hs] at h

/-- **A publisher stays attended**, if no write of its send loop fails while its ack task runs. -/
theorem Attended.step {a : Act} (h : Attended s) (ha : step c s a = some s')
    (hfail : (∃ e, a = .fail e) → s.phase.InSendLoop → s.ack.IsOver) : Attended s' := by
  intro hgone
  have hover : s.phase.InSendLoop → s.ack.IsOver := fun hphase ↦
    hfail (eq_fail_of_isGone ha hphase hgone) hphase
  cases move_of_step ⟨a, ha⟩ with
  | tick | deliver | raiseStop | dropStop => exact h hgone
  | releaseFails hphase | writeFails hphase =>
    refine hover ?_
    rw [hphase]
    trivial
  | forfeit hphase =>
    refine h ?_
    rw [hphase]
    trivial
  | joined _ hack =>
    show s.ack.IsOver
    rw [hack]
    trivial
  | timeout => trivial
  | close => trivial
  | read hack =>
    rw [onPacket_phase] at hgone
    have hack' := h hgone
    rw [hack] at hack'
    exact hack'.elim
  | readEof hack | readError hack | complete hack | completeUnknown hack | freeRefused hack
    | free hack =>
    have hack' : s.ack.IsOver := h hgone
    rw [hack] at hack'
    exact hack'.elim
  | quotaReached | stopSeen | haltPacing | acquireClosed | haltAcquiring =>
    exact absurd hgone (not_isGone_leave _)
  | drained | releaseIgnored => exact absurd hgone (not_isGone_drained _ _)
  | _ => exact hgone.elim

end Publisher

/-! ### The tasks of a run

`run` has joined a publisher's task as soon as the write side has returned. The state of the task is
kept after that, because an ack task that was left behind goes on in it. -/

namespace Run

variable {r : Setting} {s s' : State r}

/-- The task has no ack task, or none that can still count. -/
def PublisherTask.Quiescent : PublisherTask → Prop
  | .running _ p => p.ack.IsOver
  | _ => True

/-- At the report no task is alive that can still count. -/
def Settled (s : State r) : Prop :=
  s.main = .reported →
    (∀ j, (s.subscribers j).isEnded = true) ∧ ∀ i, (s.publishers i).Quiescent

/-- A write of a send loop fails, or the publisher panics, while its ack task runs. -/
def Abandons (s : State r) : Act r → Prop
  | .publisher i (.act (.fail _)) =>
    ∃ c p, s.publishers i = .running c p ∧ p.phase.InSendLoop ∧ ¬p.ack.IsOver
  | .publisher i (.panic _) => ∃ c p, s.publishers i = .running c p ∧ ¬p.ack.IsOver
  | _ => False

/-- A step that abandons no ack task. -/
def AttendedStep : State r → State r → Prop :=
  AllowedStep fun s a ↦ ¬Abandons s a

/-- The task left no ack task behind. -/
def PublisherTask.Attended : PublisherTask → Prop
  | .running _ p => Publisher.Attended p
  | _ => True

theorem attended_update {t : PublisherTask} (h : t.Attended) (nanos : ℕ) (stop : Bool) :
    (t.update (later nanos stop)).Attended := by
  cases t with
  | running c p => exact h
  | _ => trivial

/-- Where no ack task is abandoned, every publisher stays attended. -/
theorem attended_of_step (h : ∀ i, (s.publishers i).Attended) (hstep : AttendedStep s s') :
    ∀ i, (s'.publishers i).Attended := by
  intro i
  obtain ⟨a, hkeeps, ha⟩ := hstep
  cases passage_of_step ha i with
  | rests nanos stop _ _ htask =>
    rw [htask]
    exact attended_update (h i) nanos stop
  | spawned _ _ htask | refused _ _ _ htask =>
    rw [htask]
    trivial
  | connected _ _ _ htask =>
    rw [htask]
    exact fun hgone ↦ hgone.elim
  | @runs c p p' b hact _ _ _ hbefore hruns htask =>
    have hi := h i
    rw [hbefore] at hi
    rw [htask]
    refine Publisher.Attended.step hi hruns ?_
    rintro ⟨e, rfl⟩ hphase
    by_contra hover
    refine hkeeps ?_
    rw [hact]
    exact ⟨c, p, hbefore, hphase, hover⟩
  | @panics c p p' e hact _ _ hbefore hpanic htask =>
    rw [htask]
    intro _
    obtain ⟨-, permits, rfl⟩ := Publisher.panic_eq hpanic
    show p.ack.IsOver
    by_contra hover
    refine hkeeps ?_
    rw [hact]
    exact ⟨c, p, hbefore, hover⟩

/-- **Where no ack task is abandoned, a run is settled.** -/
theorem always_settled_of_attended (r : Setting) : Always AttendedStep (initial r) Settled := by
  have hattended : Always AttendedStep (initial r) fun s ↦ ∀ i, (s.publishers i).Attended :=
    always_of_invariant (fun _ ↦ trivial) fun _ _ h hstep ↦ attended_of_step h hstep
  intro s hs hmain
  have hjoined := always_joined r s (reaches_of_allowed hs)
  refine ⟨hjoined.subscribers hmain, fun i ↦ ?_⟩
  have hended := hjoined.publishers (fun _ h ↦ Main.noConfusion (hmain.symm.trans h))
    (fun h ↦ Main.noConfusion (hmain.symm.trans h)) i
  have hi := hattended s hs i
  rcases PublisherTask.isEnded_iff.1 hended with ⟨e, he⟩ | ⟨c, p, result, hp, hphase⟩
  · rw [he]
    trivial
  · rw [hp] at hi ⊢
    refine hi ?_
    rw [hphase]
    trivial

/-! ### A run that is not settled -/

/-- The broker sends a PUBREC before anything is published, and the PUBREL for it cannot be
written. -/
theorem reaches_abandoned (c : Publisher.Setting) (clock : ℕ) (e : MqttError) :
    ∃ p, Reaches (Publisher.Served c) (Publisher.initial c clock) p ∧
      p.phase = .returned (.error (.mqtt e)) ∧ p.ack = .reading := by
  let p := Publisher.initial c clock
  let p₁ : Publisher.State := { p with inbound := [.packet (.pubrec ⟨1, .success⟩)] }
  let p₂ : Publisher.State := { p with pubrels := [1] }
  let p₃ : Publisher.State := { p with phase := .releasing .top 1 }
  let p₄ : Publisher.State := { p with phase := .returned (.error (.mqtt e)) }
  have hdeliver : Publisher.step c p (.deliver (.packet (.pubrec ⟨1, .success⟩))) = some p₁ := rfl
  have hread : Publisher.step c p₁ .acknowledge = some p₂ := rfl
  have hreceive : Publisher.step c p₂ .advance = some p₃ := rfl
  have hfail : Publisher.step c p₃ (.fail e) = some p₄ := rfl
  exact ⟨p₄, Publisher.served_step _ hdeliver trivial (Publisher.served_step _ hread trivial
    (Publisher.served_step _ hreceive trivial (Publisher.served_step _ hfail trivial .refl))),
    rfl, rfl⟩

/-- **A publisher can return while its ack task runs on to the report.** -/
theorem can_abandon (i : Fin r.config.publishers) :
    Can Step (initial r) fun s ↦ ¬Settled s := by
  obtain ⟨p, hp, hphase, hack⟩ :=
    reaches_abandoned (r.publisher i none (spawned r).clock) (spawned r).clock .io
  obtain ⟨t, ht, hti, helsewhere⟩ := reaches_of_connecting (s := spawned r) (i := i) rfl rfl hp
  have hended : (t.publishers i).isEnded = true := by
    rw [hti]
    exact PublisherTask.isEnded_iff.2 (Or.inr ⟨_, p, _, rfl, hphase⟩)
  obtain ⟨u, nanos, hu, hmain, hui⟩ := reaches_reported helsewhere.main hended
    (fun j hj ↦ helsewhere.publishers j hj rfl) fun j ↦ congrFun helsewhere.subscribers j
  have hreaches := reaches_of_allowed ((reaches_spawned r).trans ht)
  refine ⟨u, hreaches.trans hu, fun hsettled ↦ ?_⟩
  have hquiescent := (hsettled hmain).2 i
  rw [hui, hti] at hquiescent
  change p.ack.IsOver at hquiescent
  rw [hack] at hquiescent
  exact hquiescent

/-- **The report is taken after all counting has stopped**, in every run in which no write of a
send loop fails and no publisher panics while its ack task runs; in every run of a configuration
only if there are no publishers. -/
theorem settled_iff (r : Setting) :
    Always AttendedStep (initial r) Settled ∧
      (Always Step (initial r) Settled ↔ r.config.publishers = 0) := by
  refine ⟨always_settled_of_attended r, fun halways ↦ ?_, fun hnone s hs hmain ↦ ?_⟩
  · by_contra hne
    exact not_always_of_can (can_abandon ⟨0, Nat.pos_of_ne_zero hne⟩) halways
  · exact ⟨(always_joined r s hs).subscribers hmain, fun i ↦ absurd i.isLt (by omega)⟩

/-- The publisher's write fails, its ack task reads on, and the report is taken. -/
theorem not_settled_pair : ¬Always Step (initial pair) Settled :=
  not_always_of_can (can_abandon ⟨0, by decide⟩)

end Run

end Bench

end PulsemqCli
