import PulsemqCli.Bench.Publisher.Quota
import PulsemqCli.Bench.Snapshot

/-!
# The end of a publisher's read side

The ack side's loop ends with the inbound stream, and then closes the semaphore. The write side
learns of it where it asks for a permit: it leaves its send loop, writes the DISCONNECT, joins the
ack side and reports the read error if there was one. A write side at QoS 0 never asks, and one
whose write fails in the send loop does not get as far: it returns at once, whatever the ack side
has seen.

The first half is safety and progress together. `Noticed` ties the closed semaphore to the end of
the ack side and to where the write side is; `publishes_le_of_closed` bounds what is still written;
and `Noticed.reaches_returned` gives, for any state with the semaphore closed and noticed, a run of
the write side to its return that needs no help of the broker.

The second half is about what is returned. The source decides it at one place, after the joins, and
there a read error comes first. But two returns do not pass through this place: those of the `?` on
a failed PUBREL in the send loop, and on a failed PUBLISH. `outranks_iff` says that these are all,
and `can_pass_over` that such a return can happen with a read error waiting, in every configuration.
-/

namespace PulsemqCli

namespace Bench

namespace Publisher

open Protocol Transition

variable {c : Setting} {s s' : State}

/-! ### The write side notices -/

/-- Draining the channel closes nothing. -/
theorem drained_closed (s : State) (d : Drain) : (drained s d).closed = s.closed := by
  cases d <;> rfl

theorem onPacket_closed (s : State) (p : Packet) : (onPacket s p).closed = s.closed := by
  unfold onPacket
  split <;> first | rfl | (split <;> rfl)

/-- Where the write side may be once its window closed. -/
def Phase.AfterWindow : Phase → Prop
  | .disconnecting | .joining _ | .returned (.error _) => True
  | _ => False

/-- The semaphore is closed as the ack side finishes, and only a closed semaphore closes the
window. -/
structure Noticed (s : State) : Prop where
  closed : s.closed = true ↔ ∃ error, s.ack = .finished error
  window : s.windowClosed = true → s.closed = true ∧ s.phase.AfterWindow

/-- At first both sides are at work. -/
theorem noticed_initial (c : Setting) (clock : ℕ) : Noticed (initial c clock) where
  closed := iff_of_false Bool.false_ne_true fun ⟨_, h⟩ ↦ AckPhase.noConfusion h
  window h := absurd h Bool.false_ne_true

/-- A step of the ack side's loop. -/
theorem Noticed.of_loop (h : Noticed s) (hack : ∀ error, s.ack ≠ .finished error)
    (hack' : ∀ error, s'.ack ≠ .finished error) (hclosed : s'.closed = s.closed)
    (hwindow : s'.windowClosed = s.windowClosed) : Noticed s' := by
  have hopen : ¬s.closed = true := fun hs ↦ (h.closed.1 hs).elim hack
  refine ⟨?_, fun hs ↦ absurd (h.window (hwindow ▸ hs)).1 hopen⟩
  rw [hclosed]
  exact iff_of_false hopen fun ⟨error, he⟩ ↦ hack' error he

/-- A step of the write side in its send loop or its drains. -/
theorem Noticed.of_phase (h : Noticed s) (hphase : ¬s.phase.AfterWindow) (hack : s'.ack = s.ack)
    (hclosed : s'.closed = s.closed) (hwindow : s'.windowClosed = s.windowClosed) :
    Noticed s' := by
  refine ⟨?_, fun hs ↦ absurd (h.window (hwindow ▸ hs)).2 hphase⟩
  rw [hclosed, hack]
  exact h.closed

theorem afterWindow_result (h : s.windowClosed = true) (error : Option MqttError) :
    (Phase.returned (result s error)).AfterWindow := by
  unfold result
  rw [h]
  cases error <;> trivial

theorem not_afterWindow_of_eq {phase : Phase} (h : s.phase = phase) (hphase : ¬phase.AfterWindow) :
    ¬s.phase.AfterWindow :=
  h ▸ hphase

/-- **What a step preserves.** -/
theorem Noticed.move (h : Noticed s) (hm : Move c s s') : Noticed s' := by
  cases hm with
  | tick | deliver | raiseStop | dropStop => exact ⟨h.closed, h.window⟩
  -- The ack side.
  | read hack =>
    refine h.of_loop (fun error he ↦ ?_) (fun error he ↦ ?_) (onPacket_closed _ _)
      (onPacket_windowClosed _ _)
    · rw [hack] at he
      cases he
    · rcases onPacket_ack _ _ with hack' | ⟨id, code, hack'⟩
      · rw [hack'] at he
        cases hack.symm.trans he
      · cases hack'.symm.trans he
  | readEof hack | readError hack | complete hack | completeUnknown hack | freeRefused hack
  | free hack =>
    refine h.of_loop (fun error he ↦ ?_) (fun error he ↦ ?_) rfl rfl
    · rw [hack] at he
      cases he
    · cases he
  | close hack => exact ⟨iff_of_true rfl ⟨_, rfl⟩, fun hs ↦ ⟨rfl, (h.window hs).2⟩⟩
  -- The write side, from where the window has not closed.
  | receive hphase | release hphase | releaseFails hphase | quotaReached hphase | quotaLeft hphase
  | stopSeen hphase | stopUnseen hphase | due hphase | haltPacing hphase | unacknowledged hphase
  | acquire hphase | haltAcquiring hphase | assign hphase | assignNone hphase | insert hphase
  | insertNone hphase | write hphase | writeFails hphase | count hphase | forfeit hphase
  | settled hphase | unsettled hphase | wake hphase =>
    exact h.of_phase (not_afterWindow_of_eq hphase id) rfl rfl rfl
  | drained hphase | releaseIgnored hphase =>
    exact h.of_phase (not_afterWindow_of_eq hphase id) (drained_ack _ _) (drained_closed _ _)
      (drained_windowClosed _ _)
  -- The write side, as the window closes and after.
  | acquireClosed _ _ hclosed => exact ⟨h.closed, fun _ ↦ ⟨hclosed, trivial⟩⟩
  | disconnect | disconnectFails => exact ⟨h.closed, fun hs ↦ ⟨(h.window hs).1, trivial⟩⟩
  | joined => exact ⟨h.closed, fun hs ↦ ⟨(h.window hs).1, afterWindow_result hs _⟩⟩
  | timeout hphase hack => exact h.of_loop hack (fun error he ↦ by cases he) rfl rfl

/-- At every moment of every run. -/
theorem always_noticed (c : Setting) (clock : ℕ) : Always (Step c) (initial c clock) Noticed :=
  always_of_invariant (noticed_initial c clock) fun _ _ h hstep ↦ h.move (move_of_step hstep)

/-- Whether the write side has a permit for a message that it has not written. -/
def Phase.committed : Phase → ℕ
  | .permitted | .assigned _ _ | .writing _ => 1
  | _ => 0

/-- A message counts as committed to once its permit is held. -/
theorem committed_eq (phase : Phase) :
    phase.committed = if phase.pass = .holding then 1 else 0 := by
  cases phase <;> rfl

/-- A closed semaphore stays closed. -/
theorem closed_of_move (h : s.closed = true) (hm : Move c s s') : s'.closed = true := by
  cases hm with
  | drained | releaseIgnored => exact (drained_closed _ _).trans h
  | read => exact (onPacket_closed _ _).trans h
  | close => rfl
  | _ => exact h

/-- **Once the semaphore is closed, no message is begun.** A step at most writes the message the
write side has a permit for. -/
theorem publishes_move (hqos : c.acknowledged = true) (hclosed : s.closed = true)
    (hm : Move c s s') :
    publishes s' + s'.phase.committed ≤ publishes s + s.phase.committed := by
  simp only [committed_eq]
  rcases progress_of_move hm with ⟨hsame, hpass⟩ | ⟨hsame, hpass⟩ | ⟨hsame, -, -, hphase'⟩ |
    ⟨hsame, -, hphase'⟩ | ⟨-, -, hopen, -⟩ | ⟨hwrote, hpass, hpass'⟩
  · rw [hsame, hpass]
  · rw [hsame, hpass]
    exact Nat.le_add_right _ _
  · rw [hsame, hphase']
    exact Nat.le_add_right _ _
  · rw [hsame, hphase']
    exact Nat.le_add_right _ _
  · exact absurd (hclosed.symm.trans (hopen hqos)) Bool.noConfusion
  · rw [hwrote, hpass, hpass']
    exact le_rfl

/-- At most one more message is written in a run from there. -/
theorem publishes_le_of_closed (hqos : c.acknowledged = true) (hclosed : s.closed = true)
    (h : Reaches (Step c) s s') : publishes s' ≤ publishes s + 1 := by
  have hrun : s'.closed = true ∧
      publishes s' + s'.phase.committed ≤ publishes s + s.phase.committed := by
    induction h with
    | refl => exact ⟨hclosed, le_rfl⟩
    | tail _ hstep ih =>
      have hm := move_of_step hstep
      exact ⟨closed_of_move ih.1 hm, (publishes_move hqos ih.1 hm).trans ih.2⟩
  have hcommitted : s.phase.committed ≤ 1 := by
    unfold Phase.committed
    split <;> decide
  omega

/-- The write side's own steps, where its writes succeed. -/
def Advances (c : Setting) (s s' : State) : Prop :=
  advance c s = some s'

/-- The write side gets from a closed window to its return without any help. -/
theorem Noticed.reaches_returned (h : Noticed s) (hwindow : s.windowClosed = true) :
    ∃ t f, Reaches (Advances c) s t ∧ t.phase = .returned (.error f) := by
  obtain ⟨hclosed, hphase⟩ := h.window hwindow
  obtain ⟨error, hack⟩ := h.closed.1 hclosed
  have hjoined : ∀ {s : State} {deadline}, s.phase = .joining deadline →
      s.ack = .finished error → s.windowClosed = true →
      ∃ t f, Reaches (Advances c) s t ∧ t.phase = .returned (.error f) := by
    intro s deadline hphase hack hwindow
    have hstep : Advances c s { s with phase := .returned (result s error) } := by
      simp only [Advances, advance, hphase, hack]
    have hresult := afterWindow_result hwindow error
    cases hr : result s error with
    | ok samples =>
      rw [hr] at hresult
      exact hresult.elim
    | error f => exact ⟨_, f, .single (hr ▸ hstep), rfl⟩
  cases hs : s.phase with
  | disconnecting =>
    let t := join c { s with written := s.written ++ [.disconnect .success] }
    have hstep : Advances c s t := by
      simp only [Advances, advance, hs]
      rfl
    obtain ⟨u, f, hu, hf⟩ := @hjoined t _ rfl hack hwindow
    exact ⟨u, f, .head hstep hu, hf⟩
  | joining deadline => exact hjoined hs hack hwindow
  | returned r =>
    rw [hs] at hphase
    cases r with
    | ok samples => exact hphase.elim
    | error f => exact ⟨s, f, .refl, hs⟩
  | _ =>
    rw [hs] at hphase
    exact hphase.elim

/-- **A dead read side never hangs the sender.** In every run at QoS 1 or 2, whatever the broker
does: once the ack side has finished, the semaphore is closed, and a write side waiting for a permit
goes on at once, out of its send loop; once the semaphore is closed, the write side writes at most
one more PUBLISH; and once the window has closed, it never returns success, and its own steps take
it to an error. -/
theorem never_hangs (clock : ℕ) (hqos : c.acknowledged = true) :
    Always (Step c) (initial c clock) fun s ↦
      (∀ error, s.ack = .finished error → s.closed = true ∧
        (s.phase = .acquiring → advance c s = some (leave { s with windowClosed := true }))) ∧
      (s.closed = true → ∀ t, Reaches (Step c) s t → publishes t ≤ publishes s + 1) ∧
      (s.windowClosed = true → (∀ samples, s.phase ≠ .returned (.ok samples)) ∧
        ∃ t f, Reaches (Advances c) s t ∧ t.phase = .returned (.error f)) := by
  intro s hs
  have h := always_noticed c clock s hs
  refine ⟨fun error hack ↦ ?_, fun hclosed t ↦ publishes_le_of_closed hqos hclosed, fun hwindow ↦
    ⟨fun samples hphase ↦ ?_, h.reaches_returned hwindow⟩⟩
  · have hclosed := h.closed.2 ⟨error, hack⟩
    refine ⟨hclosed, fun hphase ↦ ?_⟩
    simp only [advance, hphase, hqos, hclosed]
    rfl
  · have hafter := (h.window hwindow).2
    rw [hphase] at hafter
    exact hafter

/-- At QoS 1 with a window of one. -/
theorem never_hangs_one :
    Always (Step (alone .atLeastOnce (.count 2) 1)) (initial (alone .atLeastOnce (.count 2) 1) 0)
      fun s ↦
        (∀ error, s.ack = .finished error → s.closed = true ∧ (s.phase = .acquiring →
          advance (alone .atLeastOnce (.count 2) 1) s =
            some (leave { s with windowClosed := true }))) ∧
        (s.closed = true → ∀ t, Reaches (Step (alone .atLeastOnce (.count 2) 1)) s t →
          publishes t ≤ publishes s + 1) ∧
        (s.windowClosed = true → (∀ samples, s.phase ≠ .returned (.ok samples)) ∧
          ∃ t f, Reaches (Advances (alone .atLeastOnce (.count 2) 1)) s t ∧
            t.phase = .returned (.error f)) :=
  never_hangs 0 rfl

/-! ### What is reported -/

/-- The read error with which the ack side's loop has ended. -/
def AckPhase.readError : AckPhase → Option MqttError
  | .closing error | .finished error => error
  | _ => none

/-- If the ack side's loop has ended with a read error as `run` returns, and the join has not timed
out, `run` returns that error. -/
def Outranks (s s' : State) : Prop :=
  Running s → s'.ack ≠ .aborted → ∀ e r, s.ack.readError = some e → s'.phase = .returned r →
    r = .error (.replyStream e)

/-- The write side returns from its send loop, without the ack side: a PUBREL or a PUBLISH could
not be written. -/
def ReturnsEarly (s : State) : Act → Prop
  | .fail _ => ∃ id, s.phase = .releasing .top id
  | .advance => ∃ p e, s.phase = .failing p e
  | _ => False

/-- The ways to return. -/
theorem returns_cases {r : Except Failure (List ℕ)} (hm : Move c s s') (hrunning : Running s)
    (hr : s'.phase = .returned r) :
    (∃ id, s.phase = .releasing .top id) ∨ (∃ p e, s.phase = .failing p e) ∨
      (∃ error, s.ack = .finished error ∧ r = result s error) ∨ s'.ack = .aborted := by
  cases hm with
  | tick | deliver | raiseStop | dropStop | readEof | readError | complete | completeUnknown
  | freeRefused | free | close => exact absurd hr (hrunning r)
  | read =>
    rw [onPacket_phase] at hr
    exact absurd hr (hrunning r)
  | releaseFails hphase => exact Or.inl ⟨_, hphase⟩
  | forfeit hphase => exact Or.inr (Or.inl ⟨_, _, hphase⟩)
  | joined _ hack => exact Or.inr (Or.inr (Or.inl ⟨_, hack, (Phase.returned.inj hr).symm⟩))
  | timeout => exact Or.inr (Or.inr (Or.inr rfl))
  | quotaReached | stopSeen | haltPacing | acquireClosed | haltAcquiring =>
    rcases leave_phase _ with h | ⟨deadline, h⟩ <;> cases h.symm.trans hr
  | drained | releaseIgnored =>
    rcases drained_phase _ _ with h | h | ⟨deadline, wake, h⟩ <;> cases h.symm.trans hr
  | _ => cases hr

/-- An early return is a return with the error of the write. -/
theorem phase_of_returnsEarly {a : Act} (ha : step c s a = some s') (h : ReturnsEarly s a) :
    s'.ack = s.ack ∧ ∃ e, s'.phase = .returned (.error (.mqtt e)) := by
  cases a with
  | fail e =>
    obtain ⟨id, hphase⟩ := h
    change Publisher.fail c e s = some s' at ha
    unfold Publisher.fail at ha
    rw [hphase] at ha
    cases ha
    exact ⟨rfl, e, rfl⟩
  | advance =>
    obtain ⟨p, e, hphase⟩ := h
    simp only [step, advance, hphase, Option.some.injEq] at ha
    subst ha
    exact ⟨rfl, e, rfl⟩
  | _ => exact h.elim

/-- Out of a failed PUBLISH the write side can only return. -/
theorem eq_advance_of_failing {a : Act} {p : Publish} {e : MqttError}
    {r : Except Failure (List ℕ)} (ha : step c s a = some s') (hphase : s.phase = .failing p e)
    (hr : s'.phase = .returned r) : a = .advance := by
  have hsame : s'.phase ≠ s.phase := fun h ↦ by cases hr.symm.trans (h.trans hphase)
  cases a with
  | advance => rfl
  | tick | deliver | raiseStop | dropStop =>
    cases ha
    exact absurd rfl hsame
  | acknowledge => exact absurd (acknowledge_phase ha) hsame
  | fail e =>
    change Publisher.fail c e s = some s' at ha
    unfold Publisher.fail at ha
    rw [hphase] at ha
    cases ha
  | halt =>
    simp only [step, halt, hphase] at ha
    split at ha <;> cases ha
  | timeout =>
    simp only [step, timeout, hphase] at ha
    cases ha

/-- **One step.** The read error is passed over exactly by an early return. -/
theorem outranks_iff {a : Act} (ha : step c s a = some s') (hrunning : Running s) :
    Outranks s s' ↔ (ReturnsEarly s a → s.ack.readError = none) := by
  constructor
  · intro h hearly
    obtain ⟨hack, e, hphase⟩ := phase_of_returnsEarly ha hearly
    by_contra hsome
    obtain ⟨e', he'⟩ := Option.ne_none_iff_exists'.1 hsome
    have hnotAborted : s'.ack ≠ .aborted := fun haborted ↦ by
      rw [← hack, haborted] at he'
      cases he'
    cases h hrunning hnotAborted e' _ he' hphase
  · intro h _ hnotAborted e r he hr
    have hkeeps : ¬ReturnsEarly s a := fun hearly ↦ by
      rw [h hearly] at he
      cases he
    rcases returns_cases (move_of_step ⟨a, ha⟩) hrunning hr with
      ⟨id, hphase⟩ | ⟨p, e', hphase⟩ | ⟨error, hack, rfl⟩ | haborted
    · have hloop : s.phase.InSendLoop := by
        rw [hphase]
        trivial
      have hgone : s'.phase.IsGone := by
        rw [hr]
        trivial
      obtain ⟨e', rfl⟩ := eq_fail_of_isGone ha hloop hgone
      exact absurd ⟨id, hphase⟩ hkeeps
    · obtain rfl := eq_advance_of_failing ha hphase hr
      exact absurd ⟨p, e', hphase⟩ hkeeps
    · rw [hack] at he
      subst he
      rfl
    · exact absurd haborted hnotAborted

/-- A step in which no write of the send loop fails. -/
def SendingStep (c : Setting) (s s' : State) : Prop :=
  ∃ a, ((∃ e, a = .fail e) → ¬s.phase.InSendLoop) ∧ step c s a = some s'

/-- In a run of such steps no PUBLISH has failed. -/
theorem not_failing_of_step (h : ∀ p e, s.phase ≠ .failing p e) (hstep : SendingStep c s s') :
    ∀ p e, s'.phase ≠ .failing p e := by
  obtain ⟨a, hsends, ha⟩ := hstep
  intro p e hphase
  have hgone : s'.phase.IsGone := by
    rw [hphase]
    trivial
  cases move_of_step ⟨a, ha⟩ with
  | tick | deliver | raiseStop | dropStop | readEof | readError | complete | completeUnknown
  | freeRefused | free | close => exact h p e hphase
  | read =>
    rw [onPacket_phase] at hphase
    exact h p e hphase
  | quotaReached | stopSeen | haltPacing | acquireClosed | haltAcquiring =>
    exact not_isGone_leave _ hgone
  | drained | releaseIgnored => exact not_isGone_drained _ _ hgone
  | writeFails hs =>
    have hloop : s.phase.InSendLoop := by
      rw [hs]
      trivial
    exact hsends (eq_fail_of_isGone ha hloop hgone) hloop
  | _ => cases hphase

/-- No step of such a run passes over a read error. -/
theorem always_outranks_of_sending (c : Setting) (clock : ℕ) :
    Always (SendingStep c) (initial c clock) fun s ↦ ∀ s', SendingStep c s s' → Outranks s s' := by
  have hfailing : Always (SendingStep c) (initial c clock) fun s ↦
      ∀ p e, s.phase ≠ .failing p e :=
    always_of_invariant (fun _ _ h ↦ Phase.noConfusion h)
      fun _ _ h hstep ↦ not_failing_of_step h hstep
  intro s hs s' ⟨a, hsends, ha⟩ hrunning
  refine (outranks_iff ha hrunning).2 (fun hearly ↦ ?_) hrunning
  cases a with
  | fail e =>
    obtain ⟨id, hphase⟩ := hearly
    exact absurd (hphase ▸ trivial) (hsends ⟨e, rfl⟩)
  | advance =>
    obtain ⟨p, e, hphase⟩ := hearly
    exact absurd hphase (hfailing s hs p e)
  | _ => exact hearly.elim

/-- The broker sends a PUBREC and then something malformed; the ack side ends before the PUBREL is
written, and writing it fails. -/
theorem can_pass_over (c : Setting) (clock : ℕ) :
    Can (Step c) (initial c clock) fun s ↦ ∃ s', Step c s s' ∧ ¬Outranks s s' := by
  let s := initial c clock
  let s₁ : State := { s with inbound := [.packet (.pubrec ⟨1, .success⟩)] }
  let s₂ : State := { s with pubrels := [1] }
  let s₃ : State := { s₂ with inbound := [.error .malformed] }
  let s₄ : State := { s₂ with ack := .closing (some .malformed) }
  let s₅ : State := { s₄ with pubrels := [], phase := .releasing .top 1 }
  let s₆ : State := { s₅ with phase := .returned (.error (.mqtt .io)) }
  have hreach : Reaches (Step c) s s₅ := by
    refine .head (b := s₁) ⟨.deliver (.packet (.pubrec ⟨1, .success⟩)), rfl⟩ ?_
    refine .head (b := s₂) ⟨.acknowledge, rfl⟩ ?_
    refine .head (b := s₃) ⟨.deliver (.error .malformed), rfl⟩ ?_
    refine .head (b := s₄) ⟨.acknowledge, rfl⟩ ?_
    exact .single ⟨.advance, rfl⟩
  refine ⟨s₅, hreach, s₆, ⟨.fail .io, rfl⟩, fun h ↦ ?_⟩
  cases h (fun r hr ↦ by cases hr) (fun hack ↦ by cases hack) .malformed _ rfl rfl

/-- **A read error outranks every other outcome**, at each step of each run exactly if the step is
not an early return from the send loop after the ack side's loop has ended with the error; hence
throughout every run in which no write of the send loop fails. Every configuration has a run that
passes over a read error. -/
theorem outranks_throughout_iff (c : Setting) (clock : ℕ) :
    (∀ s, Reaches (Step c) (initial c clock) s → Running s → ∀ a s', step c s a = some s' →
      (Outranks s s' ↔ (ReturnsEarly s a → s.ack.readError = none))) ∧
    Always (SendingStep c) (initial c clock) (fun s ↦ ∀ s', SendingStep c s s' → Outranks s s') ∧
    Can (Step c) (initial c clock) fun s ↦ ∃ s', Step c s s' ∧ ¬Outranks s s' :=
  ⟨fun _ _ hrunning _ _ ha ↦ outranks_iff ha hrunning, always_outranks_of_sending c clock,
    can_pass_over c clock⟩

/-- At QoS 2 the PUBREL for the broker's PUBREC fails after a malformed packet was read. -/
theorem not_outranks_two :
    ¬Always (Step (alone .exactlyOnce (.count 2) 1)) (initial (alone .exactlyOnce (.count 2) 1) 0)
      fun s ↦ ∀ s', Step (alone .exactlyOnce (.count 2) 1) s s' → Outranks s s' := by
  obtain ⟨s, hs, s', hstep, hpasses⟩ := can_pass_over (alone .exactlyOnce (.count 2) 1) 0
  exact fun hall ↦ hpasses (hall s hs s' hstep)

end Publisher

end Bench

end PulsemqCli
