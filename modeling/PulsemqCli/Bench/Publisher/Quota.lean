import PulsemqCli.Bench.Publisher.Identifiers

/-!
# How many PUBLISHes a publisher writes

A publisher writes no more than its quota, and it writes all of it where the send loop ends
neither by the stop signal nor by a closed window: a run that returned success did not end by the
second.

At most the quota is a count: `Metered` ties the number of PUBLISHes written to `sent`, with one in
between for a message that is written and not counted yet. The check against the quota precedes each
message, so `sent` stays within it.

All of the quota is about how the send loop was left, which is not to be seen afterwards. `Spent`
keeps it: as long as nobody raises the stop signal, the loop is left only with the quota used up or
the window closed, and what leads from there to the result does not forget which. Since a window is
closed by an ack side that has ended with an error, a publisher that returns success was left with
its quota used up.

The last section shows that the bound is reached. It is used by other modules that need a publisher
which can send.
-/

namespace PulsemqCli

namespace Bench

namespace Publisher

open Protocol Transition

variable {c : Setting} {s s' : State}

/-! ### At most the quota -/

def isPublish : Packet → Bool
  | .publish _ => true
  | _ => false

/-- How many PUBLISHes the write side has written. -/
def publishes (s : State) : ℕ :=
  s.written.countP isPublish

/-- One packet more is written. -/
theorem countP_written (s : State) (x : Packet) :
    (s.written ++ [x]).countP isPublish = publishes s + if isPublish x then 1 else 0 := by
  rw [List.countP_append, List.countP_singleton]
  rfl

/-- Whether the write side has written a message that is not in `sent` yet. -/
def Phase.unrecorded : Phase → ℕ
  | .written _ => 1
  | _ => 0

/-- What the write side has written is accounted for, and within the quota. -/
structure Metered (c : Setting) (s : State) : Prop where
  written : publishes s = s.sent + s.phase.unrecorded
  below : BelowQuota c s
  bound : ∀ q, c.quota = some q → s.sent ≤ q

/-- Leaving the send loop, every message written is recorded. -/
theorem unrecorded_leave (s : State) : (leave s).phase.unrecorded = 0 := by
  rcases leave_phase s with h | ⟨deadline, h⟩
  all_goals rw [h]; rfl

theorem unrecorded_drained (s : State) (d : Drain) : (drained s d).phase.unrecorded = 0 := by
  rcases drained_phase s d with h | h | ⟨deadline, wake, h⟩
  all_goals rw [h]; rfl

/-- At its start a publisher has written nothing. -/
theorem metered_initial (c : Setting) (clock : ℕ) (stop : Bool) :
    Metered c { initial c clock with stop := stop } where
  written := rfl
  below := fun _ _ hwithin ↦ hwithin.elim
  bound := fun _ _ ↦ Nat.zero_le _

/-- A step writes one PUBLISH where the write side is at one, and none elsewhere. -/
theorem written_move (h : publishes s = s.sent + s.phase.unrecorded) (hm : Move c s s') :
    publishes s' = s'.sent + s'.phase.unrecorded := by
  cases hm with
  | tick | deliver | raiseStop | dropStop | readEof | readError | complete | completeUnknown
  | freeRefused | free | close => exact h
  | read =>
    rw [onPacket_sent, onPacket_phase, publishes, onPacket_written]
    exact h
  | write hphase =>
    rw [hphase] at h
    refine (countP_written s _).trans ?_
    rw [h]
    rfl
  | release hphase | disconnect hphase =>
    rw [hphase] at h
    exact (countP_written s _).trans h
  | count hphase =>
    rw [hphase] at h
    exact h
  | @quotaReached _ hphase | stopSeen hphase | haltPacing hphase | acquireClosed hphase
  | haltAcquiring hphase =>
    rw [hphase] at h
    rw [unrecorded_leave]
    exact h
  | drained hphase | releaseIgnored hphase =>
    rw [hphase] at h
    rw [unrecorded_drained, publishes, drained_written, drained_sent]
    exact h
  | receive hphase | releaseFails hphase | quotaLeft hphase | stopUnseen hphase | due hphase
  | unacknowledged hphase | acquire hphase | assign hphase | assignNone hphase | insert hphase
  | insertNone hphase | writeFails hphase | forfeit hphase | settled hphase | unsettled hphase
  | wake hphase | disconnectFails hphase | joined hphase | timeout hphase =>
    rw [hphase] at h
    exact h

/-- **A publisher stays metered.** -/
theorem Metered.move (h : Metered c s) (hm : Move c s s') : Metered c s' where
  written := written_move h.written hm
  below := h.below.move hm
  bound := by
    intro q hq
    have hbound := h.bound q hq
    cases hm with
    | count hphase =>
      refine h.below q hq ?_
      rw [hphase]
      trivial
    | read =>
      rw [onPacket_sent]
      exact hbound
    | drained | releaseIgnored =>
      rw [drained_sent]
      exact hbound
    | _ => exact hbound

/-- A panic does not come between a write and its count. -/
theorem Metered.panic {e : String} (h : Metered c s) (hp : Publisher.panic c e s = some s') :
    Metered c s' := by
  obtain ⟨hphase, permits, rfl⟩ := panic_eq hp
  have hunrecorded : s.phase.unrecorded = 0 := by
    rcases hphase with hphase | hphase | hphase
    all_goals
      rw [hphase]
      rfl
  have hwritten := h.written
  rw [hunrecorded] at hwritten
  exact ⟨hwritten, fun _ _ hwithin ↦ hwithin.elim, h.bound⟩

/-- A metered publisher has written no more than its quota. -/
theorem Metered.publishes_le (h : Metered c s) {q : ℕ} (hq : c.quota = some q) :
    publishes s ≤ q := by
  rw [h.written]
  cases hphase : s.phase with
  | written p =>
    refine h.below q hq ?_
    rw [hphase]
    trivial
  | _ => exact h.bound q hq

/-! ### The message the send loop is at

Seen from outside, the send loop deals with one message at a time. It begins outside of it, past its
stop check waits for its time, then for its permit, and holds the permit until the message is
written. `progress_of_move` says how a step takes it from one to the next. -/

/-- How far the current pass of the send loop is with its message: at one of its waits, or past both
and about to write. -/
inductive Pass where
  | outside
  | pacing
  | acquiring
  | holding
  deriving DecidableEq, Repr

def Phase.pass : Phase → Pass
  | .pacing => .pacing
  | .acquiring => .acquiring
  | .permitted | .assigned _ _ | .writing _ => .holding
  | _ => .outside

/-- Past the send loop there is no message to be at. -/
theorem pass_leave (s : State) : (leave s).phase.pass = .outside := by
  rcases leave_phase s with h | ⟨deadline, h⟩
  all_goals rw [h]; rfl

/-- A drain is between two messages. -/
theorem pass_drained (s : State) (d : Drain) : (drained s d).phase.pass = .outside := by
  rcases drained_phase s d with h | h | ⟨deadline, wake, h⟩
  all_goals rw [h]; rfl

/-- What a step does about the next message. -/
inductive Progress (c : Setting) (s s' : State) : Prop where
  | stays : publishes s' = publishes s → s'.phase.pass = s.phase.pass → Progress c s s'
  | leaves : publishes s' = publishes s → s'.phase.pass = .outside → Progress c s s'
  | begins : publishes s' = publishes s → s.phase = .checkingStop → s.stop = false →
      s'.phase = .pacing → Progress c s s'
  | due : publishes s' = publishes s → s.phase = .pacing → s'.phase = .acquiring →
      Progress c s s'
  | acquires : publishes s' = publishes s → s.phase = .acquiring →
      (c.acknowledged = true → s.closed = false) → s'.phase = .permitted → Progress c s s'
  | writes : publishes s' = publishes s + 1 → s.phase.pass = .holding →
      s'.phase.pass = .outside → Progress c s s'

/-- **Message by message.** A message is begun only past the stop check, and written only with its
permit. -/
theorem progress_of_move (hm : Move c s s') : Progress c s s' := by
  cases hm with
  | tick | deliver | raiseStop | dropStop | readEof | readError | complete | completeUnknown
  | freeRefused | free | close => exact .stays rfl rfl
  | read =>
    exact .stays (congrArg (List.countP isPublish) (onPacket_written _ _))
      (congrArg Phase.pass (onPacket_phase _ _))
  | write hphase => exact .writes (countP_written s _) (by rw [hphase]; rfl) rfl
  | release | disconnect => exact .leaves (countP_written s _) rfl
  | quotaReached | stopSeen | haltPacing | acquireClosed | haltAcquiring =>
    exact .leaves rfl (pass_leave _)
  | drained | releaseIgnored =>
    exact .leaves (congrArg (List.countP isPublish) (drained_written _ _)) (pass_drained _ _)
  | stopUnseen hphase hunseen => exact .begins rfl hphase hunseen rfl
  | due hphase => exact .due rfl hphase rfl
  | unacknowledged hphase hqos =>
    exact .acquires rfl hphase (fun h ↦ absurd (h.symm.trans hqos) Bool.noConfusion) rfl
  | acquire hphase _ hopen => exact .acquires rfl hphase (fun _ ↦ hopen) rfl
  | assign hphase | assignNone hphase | insert hphase | insertNone hphase =>
    exact .stays rfl (by rw [hphase]; rfl)
  | receive | releaseFails | quotaLeft | writeFails | count | forfeit | settled | unsettled
  | wake | disconnectFails | joined | timeout => exact .leaves rfl rfl

/-! ### All of the quota

The check that ends the loop is the only one that looks at the quota. What the write side knows when
it leaves the loop is kept until it returns. -/

/-- The write side is past its send loop, and has not returned. -/
def Phase.IsLeaving : Phase → Prop
  | .draining d | .releasing d _ => d ≠ .top
  | .waiting _ | .napping _ _ | .disconnecting | .joining _ => True
  | _ => False

/-- A publisher leaves its send loop with the quota spent, unless the window closed; and it
returns success only with the quota spent. -/
structure Spent (c : Setting) (s : State) : Prop where
  leaving : s.phase.IsLeaving → s.windowClosed = true ∨ ∀ q, c.quota = some q → q ≤ s.sent
  returned : ∀ samples, s.phase = .returned (.ok samples) → ∀ q, c.quota = some q → q ≤ s.sent

/-- Nobody has asked the publisher to stop. -/
def Unstopped (s : State) : Prop :=
  s.stop = false ∧ s.stopDropped = false

/-- The stop signal is the same in both states. -/
def SameStop (s s' : State) : Prop :=
  s'.stop = s.stop ∧ s'.stopDropped = s.stopDropped

/-- Only a stop changes the stop signal. -/
theorem sameStop_of_served {a : Act} (h : step c s a = some s') (ha : a.Served) :
    SameStop s s' := by
  cases a with
  | tick =>
    cases h
    exact ⟨rfl, rfl⟩
  | raiseStop | dropStop => exact ha.elim
  | _ =>
    have hsame := sameSurroundings_of_step h (fun _ ↦ Act.noConfusion) Act.noConfusion
      Act.noConfusion
    exact ⟨hsame.stop, hsame.stopDropped⟩

/-- At its start a publisher has left nothing. -/
theorem spent_initial (c : Setting) (clock : ℕ) (stop : Bool) :
    Spent c { initial c clock with stop := stop } where
  leaving h := absurd rfl h
  returned _ h := Phase.noConfusion h

/-- While the send loop goes on, nothing is claimed of how it ends. -/
theorem Spent.of_other (hleaving : ¬s.phase.IsLeaving)
    (hreturned : ∀ samples, s.phase ≠ .returned (.ok samples)) : Spent c s where
  leaving h := absurd h hleaving
  returned samples h := absurd h (hreturned samples)

/-- The send loop is left at its quota, or by a closed window. -/
theorem Spent.of_leave (h : s.windowClosed = true ∨ ∀ q, c.quota = some q → q ≤ s.sent) :
    Spent c (leave s) where
  leaving _ := h
  returned samples hphase := by
    rcases leave_phase s with hleave | ⟨deadline, hleave⟩
    all_goals exact Phase.noConfusion (hleave.symm.trans hphase)

/-- Past its send loop the write side keeps what it left it with. -/
theorem Spent.of_leaving (h : Spent c s) (hs : s.phase.IsLeaving)
    (hwindow : s'.windowClosed = s.windowClosed) (hsent : s'.sent = s.sent)
    (hreturned : ∀ samples, s'.phase ≠ .returned (.ok samples)) : Spent c s' where
  leaving _ := by
    rw [hwindow, hsent]
    exact h.leaving hs
  returned samples hphase := absurd hphase (hreturned samples)

/-- A drain keeps what the end of the send loop left. -/
theorem Spent.drained (h : Spent c s) {d : Drain} (hs : d ≠ .top → s.phase.IsLeaving) :
    Spent c (drained s d) := by
  by_cases hd : d = .top
  · subst hd
    exact .of_other id fun _ ↦ Phase.noConfusion
  · refine h.of_leaving (hs hd) (drained_windowClosed s d) (drained_sent s d) ?_
    intro samples hphase
    rcases drained_phase s d with hd' | hd' | ⟨deadline, wake, hd'⟩
    all_goals exact Phase.noConfusion (hd'.symm.trans hphase)

/-- A closed window is an error. -/
theorem windowClosed_of_result {error : Option MqttError} {samples : List ℕ}
    (h : result s error = .ok samples) : s.windowClosed = false := by
  unfold result at h
  split at h
  · cases h
  · split at h
    next => cases h
    next hwindow => exact Bool.eq_false_iff.2 hwindow

/-- **A publisher that nobody stops spends its quota.** -/
theorem Spent.move (h : Spent c s) (hm : Move c s s')
    (hstop : Unstopped s ∨ ∃ result, s.phase = .returned result) : Spent c s' := by
  have hunstopped : (∀ result, s.phase ≠ .returned result) → Unstopped s := fun hne ↦
    hstop.resolve_right fun ⟨result, hphase⟩ ↦ hne result hphase
  cases hm with
  | tick | deliver | raiseStop | dropStop | readEof | readError | complete | completeUnknown
  | freeRefused | free | close => exact ⟨h.leaving, h.returned⟩
  | read =>
    constructor
    · rw [onPacket_phase, onPacket_windowClosed, onPacket_sent]
      exact h.leaving
    · rw [onPacket_phase, onPacket_sent]
      exact h.returned
  | quotaReached _ hq hle =>
    refine .of_leave (Or.inr fun q' hq' ↦ ?_)
    obtain rfl := Option.some.inj (hq.symm.trans hq')
    exact hle
  | acquireClosed => exact .of_leave (Or.inl rfl)
  | stopSeen hphase hseen =>
    have := (hunstopped fun _ h' ↦ Phase.noConfusion (hphase.symm.trans h')).1
    exact absurd (this.symm.trans hseen) Bool.false_ne_true
  | haltPacing hphase _ hseen | haltAcquiring hphase _ hseen =>
    obtain ⟨hraised, hdropped⟩ :=
      hunstopped fun _ h' ↦ Phase.noConfusion (hphase.symm.trans h')
    rw [hraised, hdropped] at hseen
    exact absurd hseen Bool.false_ne_true
  | @drained d hphase => exact h.drained fun hd ↦ by rw [hphase]; exact hd
  | @releaseIgnored d _ hphase => exact h.drained fun hd ↦ by rw [hphase]; exact hd
  | @receive d _ _ hphase =>
    by_cases hd : d = .top
    · exact .of_other (not_not_intro hd) fun _ ↦ Phase.noConfusion
    · exact h.of_leaving (by rw [hphase]; exact hd) rfl rfl fun _ ↦ Phase.noConfusion
  | @release d _ hphase =>
    by_cases hd : d = .top
    · exact .of_other (not_not_intro hd) fun _ ↦ Phase.noConfusion
    · exact h.of_leaving (by rw [hphase]; exact hd) rfl rfl fun _ ↦ Phase.noConfusion
  | settled hphase | unsettled hphase | wake hphase | disconnect hphase | disconnectFails hphase =>
    exact h.of_leaving (by rw [hphase]; trivial) rfl rfl fun _ ↦ Phase.noConfusion
  | @joined _ error hphase =>
    have hleaving := h.leaving (by rw [hphase]; trivial)
    refine ⟨False.elim, fun samples hreturned ↦ ?_⟩
    have hwindow := windowClosed_of_result (Phase.returned.inj hreturned)
    rw [hwindow] at hleaving
    exact hleaving.resolve_left Bool.false_ne_true
  | count => exact .of_other (not_not_intro rfl) fun _ ↦ Phase.noConfusion
  | releaseFails | forfeit | timeout =>
    exact .of_other id fun _ hphase ↦ by cases hphase
  | _ => exact .of_other id fun _ ↦ Phase.noConfusion

/-! ### A publisher that sends all it may -/

/-- The write side sends one more message, acknowledged at once where it waits for that. -/
theorem reaches_sentMore (h : AtTop s) (hlistening : Listening s) (hmore : More c s)
    (hpermits : s.permits ≠ 0) :
    ∃ s', Reaches (Served c) s s' ∧ AtTop s' ∧ Listening s' ∧ s'.permits ≠ 0 ∧
      s'.sent = s.sent + 1 := by
  by_cases hqos : c.acknowledged = true
  · obtain ⟨s', hreach, htop, hlistening', hsent, -, hpermits', -⟩ :=
      reaches_acknowledged h hlistening hmore hqos hpermits
    exact ⟨s', hreach, htop, hlistening', by rwa [hpermits'], hsent⟩
  · exact ⟨sentUnacknowledged c s,
      served_of_unaided (reaches_sentUnacknowledged h hmore (Bool.eq_false_iff.2 hqos)),
      ⟨rfl, h.pubrels, h.stop, h.closed⟩, ⟨hlistening.ack, hlistening.inbound⟩, hpermits, rfl⟩

/-- **A publisher can send as many messages as its quota allows.** -/
theorem reaches_sent (clock n : ℕ) (hquota : ∀ q, c.quota = some q → n ≤ q) :
    ∃ s, Reaches (Served c) (initial c clock) s ∧ AtTop s ∧ Listening s ∧ s.permits ≠ 0 ∧
      s.sent = n := by
  induction n with
  | zero => exact ⟨_, .refl, atTop_initial c clock, ⟨rfl, rfl⟩, c.window_pos.ne', rfl⟩
  | succ n ih =>
    obtain ⟨s, hreach, htop, hlistening, hpermits, hsent⟩ := ih fun q hq ↦ by
      have := hquota q hq
      omega
    have hmore : More c s := fun q hq ↦ by
      have := hquota q hq
      omega
    obtain ⟨s', hreach', htop', hlistening', hpermits', hsent'⟩ :=
      reaches_sentMore htop hlistening hmore hpermits
    exact ⟨s', hreach.trans hreach', htop', hlistening', hpermits', by rw [hsent', hsent]⟩

end Publisher

end Bench

end PulsemqCli
