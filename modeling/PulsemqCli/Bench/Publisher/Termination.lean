import PulsemqCli.Bench.Publisher.Prompt
import PulsemqCli.Bench.Publisher.Relay
import PulsemqCli.Library.Potential
import Mathlib.Algebra.BigOperators.Ring.List

/-!
# How long a publisher goes on

`work` counts the steps that a publisher still makes of its own: for each message that the stop
condition leaves it a pass of the send loop, for each PUBREC that it has not answered a PUBREL, for
each packet that it has not read the steps of the ack side, and at the end the naps of the wait for
acknowledgements. Every step of its own is paid out of that, and only the broker adds to it. So a
publisher that is stopped, or that has a quota, makes a bounded number of steps; and one that is
stopped has always a step to make, if not at once then after some time.

That step may be a write, though, and no write has a time limit: neither a PUBLISH or a PUBREL nor
the DISCONNECT. On a socket that takes nothing more, since its broker has stopped reading, a
publisher waits in its next write for ever, stopped or not. It returns exactly if it has the last of
its writes behind it.
-/

namespace PulsemqCli

namespace Bench

namespace Publisher

open Protocol Transition

variable {c : Setting} {s s' t : State} {a : Act}

/-! ### What is counted

Work is counted in steps of the two tasks. A pass of the send loop is nine of them, a PUBREL two, a
packet three; a wait has a number of naps, which is found from the time left until its deadline. The
constants are not tight where a simpler one does. -/

/-- A step of one of the publisher's tasks. -/
def Act.own : Act → ℕ
  | .advance | .fail _ | .halt | .acknowledge | .timeout => 1
  | .tick _ | .deliver _ | .raiseStop | .dropStop => 0

/-- Something comes in from the broker. -/
def Act.delivers : Act → ℕ
  | .deliver _ => 1
  | _ => 0

/-- How many naps fit in a time. -/
def naps (nanos : ℕ) : ℕ :=
  (nanos + napTime - 1) / napTime

/-- The steps of the wait for acknowledgements, from its check on to the end of the run, where
this much time is left. -/
def waitWork (nanos : ℕ) : ℕ :=
  3 * naps nanos + 4

/-- The steps after the send loop, at most. -/
def tailWork : ℕ :=
  waitWork drainTime

/-- How many passes of the send loop are left. -/
def passes (c : Setting) (s : State) : ℕ :=
  if s.stop then 0 else c.quota.getD 0 - s.sent

/-- The steps that are left from a call of `drain_pubrels` on. -/
def Drain.work (passes clock : ℕ) : Drain → ℕ
  | .top => 9 * passes + 3 + tailWork
  | .waiting deadline => waitWork (deadline - clock - napTime) + 2
  | .last => 3

/-- The write side's steps that are left, PUBRELs apart. -/
def Phase.work (passes : ℕ) (stop : Bool) (clock : ℕ) : Phase → ℕ
  | .draining d => d.work passes clock
  | .releasing d _ => d.work passes clock + 1
  | .checkingQuota => 9 * passes + 2 + tailWork
  | .checkingStop => if stop then 1 + tailWork else 9 * (passes - 1) + 10 + tailWork
  | .pacing => 9 * (passes - 1) + 9 + tailWork
  | .acquiring => 9 * (passes - 1) + 8 + tailWork
  | .permitted => 9 * (passes - 1) + 7 + tailWork
  | .assigned _ _ => 9 * (passes - 1) + 6 + tailWork
  | .writing _ => 9 * (passes - 1) + 5 + tailWork
  | .written _ => 9 * (passes - 1) + 4 + tailWork
  | .failing _ _ => 1
  | .waiting deadline => waitWork (deadline - clock)
  | .napping deadline wake => waitWork (deadline - wake) + 1
  | .disconnecting => 2
  | .joining _ => 1
  | .returned _ => 0

/-- The ack side's steps that are left with the packet it has read. -/
def AckPhase.backlog : AckPhase → ℕ
  | .completing _ _ => 2
  | .freeing _ _ | .closing _ => 1
  | .reading | .finished _ | .aborted => 0

/-- The steps of both sides that are left. A packet that is not read yet takes three: it is read,
and completes a message, or hands over an identifier whose PUBREL is to be written. -/
def work (c : Setting) (s : State) : ℕ :=
  s.phase.work (passes c s) s.stop s.clock + 2 * s.pubrels.length + s.ack.backlog +
    3 * s.inbound.length

/-- The send loop has an end in sight. -/
def Limited (c : Setting) (s : State) : Prop :=
  s.stop = true ∨ ∃ q, c.quota = some q

/-! ### What a step takes

One lemma for each kind of step, with the amount that it pays. Where a step changes several accounts
at once the losses and gains are added up by `omega`; everything else about the step is rewritten
away first. -/

/-- A nap is paid out of the naps that are left. -/
theorem naps_succ {n : ℕ} (h : 0 < n) : naps (n - napTime) + 1 ≤ naps n := by
  unfold naps napTime
  omega

theorem naps_mono {m n : ℕ} (h : m ≤ n) : naps m ≤ naps n :=
  Nat.div_le_div_right (by omega)

theorem waitWork_mono {m n : ℕ} (h : m ≤ n) : waitWork m ≤ waitWork n := by
  have := naps_mono h
  unfold waitWork
  omega

/-- The wait for acknowledgements takes four steps at least. -/
theorem waitWork_pos (n : ℕ) : 4 ≤ waitWork n :=
  Nat.le_add_left _ _

theorem tailWork_eq : tailWork = 1504 := rfl

/-- A message that is sent takes one pass from those left. -/
theorem passes_sent (h : s'.sent = s.sent + 1) (hstop : s'.stop = s.stop) :
    passes c s' = passes c s - 1 := by
  unfold passes
  rw [hstop, h]
  split <;> omega

/-- Leaving the send loop is not more than what is left of it. -/
theorem work_leave (s : State) (passes : ℕ) : (leave s).phase.work passes s.stop s.clock ≤
    tailWork := by
  unfold leave
  split
  · show 2 ≤ tailWork
    decide
  · show waitWork (s.clock + drainTime - s.clock) ≤ tailWork
    rw [Nat.add_sub_cancel_left]
    exact le_rfl

/-- `drain_pubrels` is paid for. -/
theorem work_drained (s : State) (d : Drain) (passes : ℕ) :
    (drained s d).phase.work passes s.stop s.clock + 1 ≤ d.work passes s.clock := by
  cases d with
  | top =>
    show 9 * passes + 2 + tailWork + 1 ≤ 9 * passes + 3 + tailWork
    omega
  | waiting deadline =>
    show waitWork (deadline - (s.clock + napTime)) + 1 + 1 ≤
      waitWork (deadline - s.clock - napTime) + 2
    rw [Nat.sub_sub]
  | last => exact le_rfl

/-- A step of the write side that leaves what it shares with the ack side alone is paid for by its
phases. -/
theorem work_write (hpubrels : s'.pubrels = s.pubrels) (hack : s'.ack = s.ack)
    (hinbound : s'.inbound = s.inbound)
    (hphase : s'.phase.work (passes c s') s'.stop s'.clock + 1 ≤
      s.phase.work (passes c s) s.stop s.clock) : work c s' + 1 ≤ work c s := by
  unfold work
  rw [hpubrels, hack, hinbound]
  omega

/-- The same, where the send loop is left for the wait or the DISCONNECT. -/
theorem work_of_leave (h : tailWork + 1 ≤ s.phase.work (passes c s) s.stop s.clock) :
    work c (leave s) + 1 ≤ work c s :=
  work_write rfl rfl rfl (le_trans (Nat.succ_le_succ (work_leave s (passes c s))) h)

/-- The same, where `drain_pubrels` is through. -/
theorem work_of_drained {d : Drain}
    (h : d.work (passes c s) s.clock ≤ s.phase.work (passes c s) s.stop s.clock) :
    work c (drained s d) + 1 ≤ work c s := by
  have hsame := sameSurroundings_drained s d
  have hpasses : passes c (drained s d) = passes c s := by
    rw [passes, passes, hsame.stop, drained_sent]
  refine work_write (drained_pubrels s d) (drained_ack s d) (drained_inbound s d) ?_
  rw [hpasses, hsame.stop, hsame.clock]
  exact (work_drained s d _).trans h

/-- **A step of the write side is paid for**, where its write succeeds. -/
theorem work_advance (hlimited : Limited c s) (h : advance c s = some s') :
    work c s' + 1 ≤ work c s := by
  unfold advance at h
  split at h
  next d hphase =>
    split at h
    next id rest hpubrels =>
      cases h
      rw [work, work, hphase, hpubrels, List.length_cons]
      show d.work (passes c s) s.clock + 1 + 2 * rest.length + s.ack.backlog +
        3 * s.inbound.length + 1 ≤ d.work (passes c s) s.clock + 2 * (rest.length + 1) +
          s.ack.backlog + 3 * s.inbound.length
      omega
    next hpubrels =>
      cases h
      exact work_of_drained (hphase ▸ le_rfl)
  next d id hphase =>
    cases h
    exact work_write rfl rfl rfl (hphase ▸ le_rfl)
  next hphase =>
    split at h
    next =>
      cases h
      refine work_of_leave ?_
      rw [hphase, Phase.work]
      omega
    next hquota =>
      cases h
      refine work_write rfl rfl rfl ?_
      rw [hphase]
      show (if s.stop then 1 + tailWork else 9 * (passes c s - 1) + 10 + tailWork) + 1 ≤
        9 * passes c s + 2 + tailWork
      rcases hlimited with hstop | ⟨q, hq⟩
      · rw [if_pos hstop]
        omega
      · split
        · omega
        next hstop =>
          have hpasses : passes c s = q - s.sent := by
            rw [passes, if_neg hstop, hq, Option.getD_some]
          have hlt : s.sent < q := by simpa [hq] using hquota
          omega
  next hphase =>
    split at h
    next hstop =>
      cases h
      refine work_of_leave ?_
      rw [hphase, Phase.work, if_pos hstop]
      omega
    next hstop =>
      cases h
      refine work_write rfl rfl rfl ?_
      rw [hphase, Phase.work, Phase.work, if_neg hstop]
      exact le_rfl
  next hphase =>
    split at h
    next =>
      cases h
      exact work_write rfl rfl rfl (hphase ▸ le_rfl)
    next => cases h
  next hphase =>
    split at h
    next =>
      cases h
      exact work_write rfl rfl rfl (hphase ▸ le_rfl)
    next =>
      split at h
      next =>
        cases h
        have hleave : work c (leave { s with windowClosed := true }) + 1 ≤
            work c { s with windowClosed := true } := by
          refine work_of_leave ?_
          show tailWork + 1 ≤ s.phase.work _ _ _
          rw [hphase, Phase.work]
          omega
        exact hleave
      next =>
        split at h
        next => cases h
        next =>
          cases h
          exact work_write rfl rfl rfl (hphase ▸ le_rfl)
  next hphase =>
    split at h
    next =>
      cases h
      exact work_write rfl rfl rfl (hphase ▸ le_rfl)
    next =>
      cases h
      refine work_write rfl rfl rfl ?_
      rw [hphase]
      exact Nat.le_succ _
  next p now hphase =>
    split at h
    all_goals
      cases h
      exact work_write rfl rfl rfl (hphase ▸ le_rfl)
  next p hphase =>
    cases h
    exact work_write rfl rfl rfl (hphase ▸ le_rfl)
  next p hphase =>
    have hs' := Option.some.inj h
    have hpasses : passes c s' = passes c s - 1 := passes_sent (by rw [← hs']) (by rw [← hs'])
    subst hs'
    refine work_write rfl rfl rfl ?_
    rw [hpasses, hphase]
    exact le_rfl
  next p e hphase =>
    cases h
    exact work_write rfl rfl rfl (hphase ▸ le_rfl)
  next deadline hphase =>
    split at h
    next =>
      cases h
      exact work_write rfl rfl rfl (hphase ▸ waitWork_pos _)
    next hunsettled =>
      cases h
      refine work_write rfl rfl rfl ?_
      rw [hphase]
      show waitWork (deadline - s.clock - napTime) + 2 + 1 ≤ waitWork (deadline - s.clock)
      have hnaps := naps_succ (n := deadline - s.clock) (by omega)
      unfold waitWork
      omega
  next deadline wake hphase =>
    split at h
    next hwake =>
      cases h
      refine work_write rfl rfl rfl ?_
      rw [hphase]
      exact Nat.succ_le_succ (waitWork_mono (Nat.sub_le_sub_left hwake deadline))
    next => cases h
  next hphase =>
    cases h
    exact work_write rfl rfl rfl (hphase ▸ le_rfl)
  next deadline hphase =>
    split at h
    next error hack =>
      cases h
      exact work_write rfl rfl rfl (hphase ▸ le_rfl)
    next => cases h
  next => cases h

/-- The same, where its write fails. -/
theorem work_fail {e : MqttError} (h : fail c e s = some s') : work c s' + 1 ≤ work c s := by
  cases hphase : s.phase with
  | releasing d id =>
    cases d with
    | top =>
      rw [fail, hphase] at h
      cases h
      refine work_write rfl rfl rfl ?_
      rw [hphase]
      exact Nat.succ_le_succ (Nat.zero_le _)
    | waiting | last =>
      rw [fail, hphase] at h
      cases h
      exact work_of_drained (hphase ▸ Nat.le_succ _)
  | writing p =>
    rw [fail, hphase] at h
    cases h
    refine work_write rfl rfl rfl ?_
    rw [hphase, Phase.work, Phase.work]
    omega
  | disconnecting =>
    rw [fail, hphase] at h
    cases h
    exact work_write rfl rfl rfl (hphase ▸ le_rfl)
  | _ =>
    rw [fail, hphase] at h
    cases h

/-- The same, where it takes the stop arm of a `select!`. -/
theorem work_halt (h : halt c s = some s') : work c s' + 1 ≤ work c s := by
  have hleave : (s.phase = .pacing ∨ s.phase = .acquiring) ∧ s' = leave s := by
    unfold halt at h
    split at h
    · split at h
      · split at h
        · cases h
          exact ⟨Or.inl ‹_›, rfl⟩
        · cases h
      · split at h
        · cases h
          exact ⟨Or.inr ‹_›, rfl⟩
        · cases h
      · cases h
    · cases h
  obtain ⟨hphase, rfl⟩ := hleave
  refine work_of_leave ?_
  rcases hphase with hphase | hphase <;> rw [hphase, Phase.work] <;> omega

/-- The same, where the join of the ack side times out. -/
theorem work_timeout (h : timeout s = some s') : work c s' + 1 ≤ work c s := by
  unfold timeout at h
  split at h
  next => cases h
  next deadline hphase _ =>
    split at h
    · cases h
      rw [work, work, hphase]
      show 0 + 2 * s.pubrels.length + 0 + 3 * s.inbound.length + 1 ≤
        1 + 2 * s.pubrels.length + s.ack.backlog + 3 * s.inbound.length
      omega
    · cases h
  next => cases h

/-- A step that only the ack side has a part in is paid for by what was read, what is being
completed and what is handed over. -/
theorem work_ack (hphase : s'.phase = s.phase) (hsame : SameSurroundings s s')
    (hsent : s'.sent = s.sent) {pubrels ack inbound : ℕ} (hpubrels : s'.pubrels.length = pubrels)
    (hack : s'.ack.backlog = ack) (hinbound : s'.inbound.length = inbound)
    (hle : 2 * pubrels + ack + 3 * inbound + 1 ≤
      2 * s.pubrels.length + s.ack.backlog + 3 * s.inbound.length) : work c s' + 1 ≤ work c s := by
  have hpasses : passes c s' = passes c s := by rw [passes, passes, hsame.stop, hsent]
  unfold work
  rw [hphase, hpasses, hsame.stop, hsame.clock, hpubrels, hack, hinbound]
  omega

/-- What becomes of a packet is paid for by its reading. -/
theorem work_onPacket (p : Packet) (hack : s.ack = .reading) :
    2 * (onPacket s p).pubrels.length + (onPacket s p).ack.backlog ≤ 2 * s.pubrels.length + 2 := by
  unfold onPacket
  split
  · exact le_rfl
  · exact le_rfl
  · split
    · exact le_rfl
    · rw [List.length_append, hack]
      exact le_rfl
  · rw [hack]
    exact Nat.le_add_right _ _

/-- **A step of the ack side is paid for.** -/
theorem work_acknowledge (h : acknowledge c s = some s') : work c s' + 1 ≤ work c s := by
  unfold acknowledge at h
  split at h
  next hack =>
    have hwork : s.ack.backlog = 0 := by rw [hack]; rfl
    split at h
    next => cases h
    next p rest hinbound =>
      cases h
      have hread : 2 * (onPacket { s with inbound := rest } p).pubrels.length +
          (onPacket { s with inbound := rest } p).ack.backlog ≤ 2 * s.pubrels.length + 2 :=
        work_onPacket p hack
      have hsame := sameSurroundings_onPacket { s with inbound := rest } p
      refine work_ack (onPacket_phase _ _) ⟨hsame.clock, hsame.stop, hsame.stopDropped⟩
        (onPacket_sent _ _) rfl rfl (congrArg List.length (onPacket_inbound _ _)) ?_
      rw [hinbound, List.length_cons]
      show _ + 3 * rest.length + 1 ≤ _
      omega
    next rest hinbound =>
      cases h
      refine work_ack rfl ⟨rfl, rfl, rfl⟩ rfl rfl rfl rfl ?_
      rw [hinbound, List.length_cons]
      show 2 * s.pubrels.length + 1 + 3 * rest.length + 1 ≤ _
      omega
    next e rest hinbound =>
      cases h
      refine work_ack rfl ⟨rfl, rfl, rfl⟩ rfl rfl rfl rfl ?_
      rw [hinbound, List.length_cons]
      show 2 * s.pubrels.length + 1 + 3 * rest.length + 1 ≤ _
      omega
  next id code hack =>
    have hwork : s.ack.backlog = 2 := by rw [hack]; rfl
    split at h
    · cases h
      refine work_ack rfl ⟨rfl, rfl, rfl⟩ rfl rfl rfl rfl ?_
      show 2 * s.pubrels.length + 1 + 3 * s.inbound.length + 1 ≤ _
      omega
    · cases h
      refine work_ack rfl ⟨rfl, rfl, rfl⟩ rfl rfl rfl rfl ?_
      show 2 * s.pubrels.length + 0 + 3 * s.inbound.length + 1 ≤ _
      omega
  next sentAt code hack =>
    have hwork : s.ack.backlog = 1 := by rw [hack]; rfl
    split at h
    all_goals
      cases h
      refine work_ack rfl ⟨rfl, rfl, rfl⟩ rfl rfl rfl rfl ?_
      show 2 * s.pubrels.length + 0 + 3 * s.inbound.length + 1 ≤ _
      omega
  next error hack =>
    have hwork : s.ack.backlog = 1 := by rw [hack]; rfl
    cases h
    refine work_ack rfl ⟨rfl, rfl, rfl⟩ rfl rfl rfl rfl ?_
    show 2 * s.pubrels.length + 0 + 3 * s.inbound.length + 1 ≤ _
    omega
  all_goals cases h

/-- Time only shortens the wait for acknowledgements. -/
theorem work_tick (s : State) (nanos : ℕ) :
    work c { s with clock := s.clock + nanos } ≤ work c s := by
  have hdrain : ∀ (d : Drain) (k : ℕ), d.work k (s.clock + nanos) ≤ d.work k s.clock := by
    intro d k
    cases d with
    | waiting deadline => exact Nat.add_le_add_right (waitWork_mono (by omega)) 2
    | top | last => exact le_rfl
  have hphase : s.phase.work (passes c s) s.stop (s.clock + nanos) ≤
      s.phase.work (passes c s) s.stop s.clock := by
    cases s.phase with
    | draining d => exact hdrain d _
    | releasing d id => exact Nat.succ_le_succ (hdrain d _)
    | waiting deadline => exact waitWork_mono (by omega)
    | _ => exact le_rfl
  exact Nat.add_le_add_right (Nat.add_le_add_right (Nat.add_le_add_right hphase _) _) _

/-- The stop signal takes away what the stop condition had left. -/
theorem work_raiseStop (s : State) : work c { s with stop := true } ≤ work c s := by
  have hphase : s.phase.work 0 true s.clock ≤ s.phase.work (passes c s) s.stop s.clock := by
    have htop : ∀ d : Drain, d.work 0 s.clock ≤ d.work (passes c s) s.clock := by
      intro d
      cases d with
      | top => exact Nat.add_le_add_right (Nat.add_le_add_right (by omega) _) _
      | waiting deadline | last => exact le_rfl
    cases s.phase with
    | draining d => exact htop d
    | releasing d id => exact Nat.succ_le_succ (htop d)
    | checkingStop =>
      show 1 + tailWork ≤ if s.stop then 1 + tailWork else 9 * (passes c s - 1) + 10 + tailWork
      split <;> omega
    | checkingQuota | pacing | acquiring | permitted | assigned | writing | written =>
      simp only [Phase.work]
      omega
    | _ => exact le_rfl
  exact Nat.add_le_add_right (Nat.add_le_add_right (Nat.add_le_add_right hphase _) _) _

/-- **Every step is paid for**, and only the broker adds to the work. -/
theorem work_of_step (hlimited : Limited c s) (h : step c s a = some s') :
    work c s' + a.own ≤ work c s + 3 * a.delivers := by
  cases a with
  | tick nanos =>
    cases h
    exact work_tick s nanos
  | deliver x =>
    cases h
    rw [work, work, List.length_append]
    show s.phase.work (passes c s) s.stop s.clock + 2 * s.pubrels.length + s.ack.backlog +
      3 * (s.inbound.length + 1) + 0 ≤ s.phase.work (passes c s) s.stop s.clock +
        2 * s.pubrels.length + s.ack.backlog + 3 * s.inbound.length + 3 * 1
    omega
  | raiseStop =>
    cases h
    exact work_raiseStop s
  | dropStop =>
    cases h
    exact le_rfl
  | advance => exact work_advance hlimited h
  | fail e => exact work_fail h
  | halt => exact work_halt h
  | acknowledge => exact work_acknowledge h
  | timeout => exact work_timeout h

/-- A quota stays one, and so does a stop signal that was raised. -/
theorem Limited.step (hlimited : Limited c s) (h : step c s a = some s') : Limited c s' :=
  hlimited.imp_left (stop_of_step h).1

/-- The accounts as the library has them: a step of the publisher's own is paid out of `work`, and
what is delivered to it adds three for each packet. -/
theorem amortizes_work (c : Setting) :
    Amortizes (step c) (Limited c) (work c) Act.own fun a ↦ 3 * a.delivers where
  invariant := Limited.step
  paid := work_of_step

/-! ### How much work there is

The work of a wait depends on its deadline, and would not be bounded if that could be any time
ahead. `Timely` says that it is not: a deadline is set from the present, and time only passes. -/

/-- A call of `drain_pubrels` from the wait has a deadline no further ahead than the wait is
long. -/
def Drain.Timely (clock : ℕ) : Drain → Prop
  | .waiting deadline => deadline ≤ clock + drainTime
  | _ => True

/-- The same of the write side. -/
def Phase.Timely (clock : ℕ) : Phase → Prop
  | .draining d | .releasing d _ => d.Timely clock
  | .waiting deadline => deadline ≤ clock + drainTime
  | .napping deadline wake => deadline ≤ wake + drainTime
  | _ => True

theorem Drain.Timely.mono {d : Drain} {m n : ℕ} (h : d.Timely m) (hle : m ≤ n) : d.Timely n := by
  cases d with
  | waiting deadline => exact h.trans (Nat.add_le_add_right hle _)
  | top | last => trivial

theorem Phase.Timely.mono {phase : Phase} {m n : ℕ} (h : phase.Timely m) (hle : m ≤ n) :
    phase.Timely n := by
  cases phase with
  | draining d | releasing d id => exact Drain.Timely.mono h hle
  | waiting deadline => exact h.trans (Nat.add_le_add_right hle _)
  | napping deadline wake => exact h
  | _ => trivial

/-- The wait's deadline is set from the present. -/
theorem timely_leave (s : State) : (leave s).phase.Timely s.clock := by
  unfold leave
  split
  · trivial
  · exact le_rfl

/-- A drain that is through leaves no deadline further ahead than it had. -/
theorem timely_drained {d : Drain} (h : d.Timely s.clock) : (drained s d).phase.Timely s.clock := by
  cases d with
  | waiting deadline =>
    show deadline ≤ s.clock + napTime + drainTime
    exact h.trans (by omega)
  | top | last => trivial

/-- No deadline of the wait is further ahead than the wait is long. -/
theorem timely_move (h : s.phase.Timely s.clock) (hm : Move c s s') :
    s'.phase.Timely s'.clock := by
  cases hm with
  | tick nanos => exact h.mono (Nat.le_add_right _ _)
  | deliver | raiseStop | dropStop | readEof | readError | complete | completeUnknown
  | freeRefused | free | close => exact h
  | read =>
    rw [onPacket_phase, (sameSurroundings_onPacket _ _).clock]
    exact h
  | receive hphase | release hphase =>
    rw [hphase] at h
    exact h
  | drained hphase | releaseIgnored hphase =>
    rw [hphase] at h
    rw [(sameSurroundings_drained _ _).clock]
    exact timely_drained h
  | quotaReached | stopSeen | haltPacing | acquireClosed | haltAcquiring => exact timely_leave _
  | unsettled hphase =>
    rw [hphase] at h
    exact h
  | @wake deadline wake hphase hwake =>
    rw [hphase] at h
    exact le_trans h (Nat.add_le_add_right hwake _)
  | _ => trivial

/-- The work of a drain, within that of the passes and the wait. -/
theorem drainWork_le {d : Drain} {clock : ℕ} (h : d.Timely clock) (passes : ℕ) :
    d.work passes clock ≤ 9 * passes + 1507 := by
  cases d with
  | top => exact le_rfl
  | waiting deadline =>
    have hle : waitWork (deadline - clock - napTime) ≤ tailWork :=
      waitWork_mono (by unfold Drain.Timely at h; omega)
    rw [tailWork_eq] at hle
    show waitWork _ + 2 ≤ _
    omega
  | last => exact le_trans (by decide : 3 ≤ 1507) (Nat.le_add_left _ _)

/-- The write side's work is at most that of a pass and of the wait, besides the passes left. -/
theorem phaseWork_le {phase : Phase} {clock : ℕ} (h : phase.Timely clock) (passes : ℕ)
    (stop : Bool) : phase.work passes stop clock ≤ 9 * passes + 1514 := by
  have hwait : ∀ {n}, n ≤ drainTime → waitWork n ≤ 1504 := waitWork_mono
  cases phase with
  | draining d => exact (drainWork_le h passes).trans (by omega)
  | releasing d id =>
    have hle := drainWork_le h passes
    rw [Phase.work]
    omega
  | checkingStop =>
    rw [Phase.work, tailWork_eq]
    split <;> omega
  | waiting deadline =>
    have hle := hwait (n := deadline - clock) (by unfold Phase.Timely at h; omega)
    exact hle.trans (by omega)
  | napping deadline wake =>
    have hle := hwait (n := deadline - wake) (by unfold Phase.Timely at h; omega)
    exact (Nat.succ_le_succ hle).trans (by omega)
  | _ =>
    rw [Phase.work]
    try rw [tailWork_eq]
    omega

/-- **A bound on the work** by what is left of the quota and what is in the two queues. -/
theorem work_le (h : s.phase.Timely s.clock) :
    work c s ≤ 9 * passes c s + 1516 + 2 * s.pubrels.length + 3 * s.inbound.length := by
  have hphase := phaseWork_le h (passes c s) s.stop
  have hack : s.ack.backlog ≤ 2 := by
    unfold AckPhase.backlog
    split <;> decide
  unfold work
  omega

/-! ### A publisher that is stopped

By itself a publisher makes the steps of its two tasks and lets time pass; the broker does nothing,
and nobody stops it again. With a blocked socket it ends no write either, be it by success or by
failure. `CanFinish` is what is kept on the way to its return, and the work left is the rank. -/

/-- A step of a task whose writes succeed, with time passing. -/
def Act.Unassisted : Act → Prop
  | .tick _ | .advance | .halt | .acknowledge | .timeout => True
  | _ => False

/-- The step ends a write: the socket has taken the packet, or fails. -/
def Act.EndsWrite (s : State) : Act → Prop
  | .advance | .fail _ => s.phase.IsWriting
  | _ => False

/-- A step that needs nothing from the broker. If the socket is blocked, it takes nothing, and ends
no write. -/
def Unassisted (blocked : Prop) (c : Setting) (s s' : State) : Prop :=
  ∃ a, Act.Unassisted a ∧ ¬(blocked ∧ a.EndsWrite s) ∧ step c s a = some s'

/-- The write side has nothing more to write. -/
def Phase.IsPastWrites : Phase → Prop
  | .failing _ _ | .joining _ | .returned _ => True
  | _ => False

theorem Phase.IsPastWrites.not_isWriting {phase : Phase} (h : phase.IsPastWrites) :
    ¬phase.IsWriting := by
  cases phase with
  | failing | joining | returned => exact id
  | _ => exact h.elim

/-- A write that nothing ends goes on. -/
theorem phase_eq_of_isWriting (hwriting : s.phase.IsWriting) (hends : ¬a.EndsWrite s)
    (h : step c s a = some s') : s'.phase = s.phase := by
  by_contra hne
  rcases act_of_isWriting h hwriting hne with rfl | ⟨e, rfl⟩
  · exact hends hwriting
  · exact hends hwriting

/-- Leaving the send loop, the DISCONNECT at least is still to be written. -/
theorem not_isPastWrites_leave (s : State) : ¬(leave s).phase.IsPastWrites := by
  rcases leave_phase s with h | ⟨deadline, h⟩
  all_goals
    rw [h]
    exact id

theorem not_isPastWrites_drained (s : State) (d : Drain) : ¬(drained s d).phase.IsPastWrites := by
  rcases drained_phase s d with h | h | ⟨deadline, wake, h⟩
  all_goals
    rw [h]
    exact id

/-- **Nothing but the end of a write brings the write side past its writes.** -/
theorem not_isPastWrites_step (hpast : ¬s.phase.IsPastWrites) (hends : ¬a.EndsWrite s)
    (h : step c s a = some s') : ¬s'.phase.IsPastWrites := by
  by_cases hwriting : s.phase.IsWriting
  · rw [phase_eq_of_isWriting hwriting hends h]
    exact hpast
  cases move_of_step ⟨a, h⟩ with
  | tick | deliver | raiseStop | dropStop | readEof | readError | complete | completeUnknown
  | freeRefused | free | close => exact hpast
  | read =>
    rw [onPacket_phase]
    exact hpast
  | release hphase | releaseFails hphase | releaseIgnored hphase | write hphase
  | writeFails hphase | disconnect hphase | disconnectFails hphase =>
    rw [hphase] at hwriting
    exact absurd trivial hwriting
  | forfeit hphase | joined hphase | timeout hphase =>
    rw [hphase] at hpast
    exact absurd trivial hpast
  | drained => exact not_isPastWrites_drained _ _
  | quotaReached | stopSeen | haltPacing | acquireClosed | haltAcquiring =>
    exact not_isPastWrites_leave _
  | _ => exact id

/-- There it stays. -/
theorem isPastWrites_step (hpast : s.phase.IsPastWrites) (h : step c s a = some s') :
    s'.phase.IsPastWrites := by
  cases move_of_step ⟨a, h⟩ with
  | tick | deliver | raiseStop | dropStop | readEof | readError | complete | completeUnknown
  | freeRefused | free | close => exact hpast
  | read =>
    rw [onPacket_phase]
    exact hpast
  | forfeit | joined | timeout => trivial
  | receive hphase | drained hphase | release hphase | releaseFails hphase
  | releaseIgnored hphase | quotaReached hphase | quotaLeft hphase | stopSeen hphase
  | stopUnseen hphase | due hphase | haltPacing hphase | unacknowledged hphase
  | acquireClosed hphase | acquire hphase | haltAcquiring hphase | assign hphase
  | assignNone hphase | insert hphase | insertNone hphase | write hphase | writeFails hphase
  | count hphase | settled hphase | unsettled hphase | wake hphase | disconnect hphase
  | disconnectFails hphase =>
    rw [hphase] at hpast
    exact hpast.elim

/-- The publisher is stopped, and past its writes if its socket is blocked. -/
def CanFinish (blocked : Prop) (s : State) : Prop :=
  s.stop = true ∧ (blocked → s.phase.IsPastWrites)

/-- A step that can be made after some time is progress. -/
theorem progress_of_step {blocked : Prop} (hs : CanFinish blocked s) (nanos : ℕ)
    (ha : a.Unassisted) (hown : a.own = 1)
    (h : (step c { s with clock := s.clock + nanos } a).isSome = true) :
    ∃ t, Reaches (Unassisted blocked c) s t ∧ CanFinish blocked t ∧ work c t < work c s := by
  obtain ⟨hstop, hpast⟩ := hs
  obtain ⟨t, ht⟩ := Option.isSome_iff_exists.1 h
  have hpaid := work_of_step (s := { s with clock := s.clock + nanos }) (Or.inl hstop) ht
  have htick := work_tick (c := c) s nanos
  have hdelivers : a.delivers = 0 := by
    cases a with
    | deliver x => exact ha.elim
    | _ => rfl
  have hends : ¬(blocked ∧ a.EndsWrite { s with clock := s.clock + nanos }) := by
    rintro ⟨hblocked, hends⟩
    have hwriting : s.phase.IsWriting := by
      cases a with
      | advance | fail => exact hends
      | _ => exact hends.elim
    exact (hpast hblocked).not_isWriting hwriting
  refine ⟨t, .tail (.single ⟨.tick nanos, trivial, fun h ↦ h.2, rfl⟩) ⟨a, ha, hends, ht⟩,
    ⟨(stop_of_step ht).1 hstop, fun hblocked ↦
      isPastWrites_step (s := { s with clock := s.clock + nanos }) (hpast hblocked) ht⟩, ?_⟩
  rw [hown, hdelivers] at hpaid
  omega

/-- **A publisher that is stopped is never stuck**, unless in a write: there is a step it makes by
itself, if not at once then after some time. -/
theorem progress_of_stop {blocked : Prop} (hs : CanFinish blocked s) (hrunning : Running s) :
    ∃ t, Reaches (Unassisted blocked c) s t ∧ CanFinish blocked t ∧ work c t < work c s := by
  have hstop := hs.1
  have hnow : ∀ a : Act, a.Unassisted → a.own = 1 → (step c s a).isSome = true →
      ∃ t, Reaches (Unassisted blocked c) s t ∧ CanFinish blocked t ∧ work c t < work c s :=
    fun a ha hown h ↦ progress_of_step hs 0 ha hown h
  cases hphase : s.phase with
  | returned r => exact absurd hphase (hrunning r)
  | draining | assigned | checkingQuota | checkingStop | permitted | waiting =>
    refine hnow .advance trivial rfl ?_
    simp only [step, advance, hphase]
    split <;> rfl
  | releasing | writing | written | failing | disconnecting =>
    refine hnow .advance trivial rfl ?_
    simp only [step, advance, hphase]
    rfl
  | pacing =>
    rcases hdeadline : c.deadline s.sent with - | t
    · refine hnow .advance trivial rfl ?_
      simp only [step, advance, hphase, hdeadline]
      rfl
    · refine hnow .halt trivial rfl ?_
      simp only [step, halt, hphase, hstop, hdeadline]
      rfl
  | acquiring =>
    rcases hqos : c.acknowledged with - | -
    · refine hnow .advance trivial rfl ?_
      simp only [step, advance, hphase, hqos]
      rfl
    · refine hnow .halt trivial rfl ?_
      simp only [step, halt, hphase, hstop, hqos]
      rfl
  | napping deadline wake =>
    have hwake : wake ≤ s.clock + (wake - s.clock) := by omega
    refine progress_of_step (a := .advance) hs (wake - s.clock) trivial rfl ?_
    simp only [step, advance, hphase, if_pos hwake]
    rfl
  | joining deadline =>
    by_cases hfinished : ∃ error, s.ack = .finished error
    · obtain ⟨error, hack⟩ := hfinished
      refine hnow .advance trivial rfl ?_
      simp only [step, advance, hphase, hack]
      rfl
    · -- The join times out.
      have hdeadline : deadline ≤ s.clock + (deadline - s.clock) := by omega
      refine progress_of_step (a := .timeout) hs (deadline - s.clock) trivial rfl ?_
      simp only [step, timeout, hphase]
      cases hack : s.ack with
      | finished error => exact absurd ⟨error, hack⟩ hfinished
      | _ => simp [hdeadline]

/-- Once it is stopped, it can return, if nothing is left to be written on a socket that is
blocked. -/
theorem can_return {blocked : Prop} (hs : CanFinish blocked s) :
    Can (Unassisted blocked c) s fun t ↦ ¬Running t := by
  obtain ⟨t, hreaches, -, hreturned⟩ := can_of_rank (P := fun t ↦ ¬Running t) (work c)
    (fun s hs hrunning ↦ progress_of_stop hs (not_not.1 hrunning)) hs
  exact ⟨t, hreaches, hreturned⟩

/-- A publisher with something left to be written does not return on a socket that is blocked,
stopped or not. -/
theorem isPastWrites_of_can_return {blocked : Prop}
    (h : Can (Unassisted blocked c) s fun t ↦ ¬Running t) (hblocked : blocked) :
    s.phase.IsPastWrites := by
  by_contra hpast
  obtain ⟨t, ht, hreturned⟩ := h
  have hnever : Always (Unassisted blocked c) s fun u ↦ ¬u.phase.IsPastWrites := by
    refine always_of_invariant hpast ?_
    rintro u v hu ⟨a, -, hends, ha⟩
    exact not_isPastWrites_step hu (fun h ↦ hends ⟨hblocked, h⟩) ha
  obtain ⟨result, hresult⟩ := not_forall.1 hreturned
  refine hnever t ht ?_
  rw [not_not.1 hresult]
  trivial

/-- **A publisher goes on for a bounded number of steps.** In every run: as soon as the send loop
has an end in sight, for it is stopped or has a quota, the two tasks make at most nine steps for
each message that is left, three for each packet that comes in, two for each PUBREL that is due, and
1516 more. And once it is stopped, the publisher can return by itself, whatever the broker sends or
does not send, as long as the socket takes what is written; on a socket that is blocked, exactly if
nothing is left to be written. -/
theorem terminates (c : Setting) (clock : ℕ) :
    Always (Step c) (initial c clock) fun s ↦
      (Limited c s → ∀ (as : List Act) (t : State), as.foldlM (step c) s = some t →
        (as.map Act.own).sum ≤ 9 * passes c s + 1516 + 2 * s.pubrels.length +
          3 * (s.inbound.length + (as.map Act.delivers).sum)) ∧
      (s.stop = true → ∀ blocked : Prop,
        Can (Unassisted blocked c) s (fun t ↦ ¬Running t) ↔
          (blocked → s.phase.IsPastWrites)) := by
  have htimely : Always (Step c) (initial c clock) fun s ↦ s.phase.Timely s.clock :=
    always_of_invariant trivial fun _ _ h hstep ↦ timely_move h (move_of_step hstep)
  refine fun s hs ↦ ⟨fun hlimited as t hrun ↦ ?_, fun hstop blocked ↦
    ⟨isPastWrites_of_can_return, fun hpast ↦ can_return ⟨hstop, hpast⟩⟩⟩
  have hwork := work_le (c := c) (htimely s hs)
  have hpaid := ((amortizes_work c).run hlimited hrun).2
  rw [List.sum_map_mul_left] at hpaid
  omega

end Publisher

end Bench

end PulsemqCli
