import PulsemqCli.Bench.Publisher

/-!
# What a step of a publisher can do

`Move` says it once, a constructor for each branch of the code: the branch's conditions, and the
state after it. An invariant is proved by cases on a move, with its conditions at hand under the
names of the constructors, and a change of one branch of the code is a change of one constructor.

The constructors follow the order of the code: the surroundings, `drain_pubrels`, the send loop from
its top to the write, what comes after it, and last the ack side. Conditions that come out of a
lookup or a decision of the code are given as equations, so that a proof by cases can rewrite with
them; a lookup that may fail, such as that of an identifier in flight, is two constructors.

`move_of_step` goes through the acts, with a lemma for each, and forgets which act it was: most
invariants do not depend on it. Where it matters, as for the work that an act pays or the marks that
it leaves, the modules concerned look at the act itself, and so do those that build a run and have
to say that a step is possible.

A panic is not among the moves, since it is no step of the code's own; `panic_eq` says what it does.
-/

namespace PulsemqCli

namespace Bench

namespace Publisher

open Protocol

/-- The steps from a state, branch by branch. -/
inductive Move (c : Setting) (s : State) : State → Prop where
  -- The surroundings.
  | tick (nanos : ℕ) : Move c s { s with clock := s.clock + nanos }
  | deliver (x : Inbound) : Move c s { s with inbound := s.inbound ++ [x] }
  | raiseStop : Move c s { s with stop := true }
  | dropStop : Move c s { s with stopDropped := true }
  -- The write side in `drain_pubrels`.
  | receive {d : Drain} {id : PacketId} {rest : List PacketId} : s.phase = .draining d →
      s.pubrels = id :: rest → Move c s { s with pubrels := rest, phase := .releasing d id }
  | drained {d : Drain} : s.phase = .draining d → s.pubrels = [] → Move c s (drained s d)
  | release {d : Drain} {id : PacketId} : s.phase = .releasing d id → Move c s
      { s with written := s.written ++ [.pubrel ⟨id, .success⟩], phase := .draining d }
  | releaseFails {id : PacketId} : s.phase = .releasing .top id → ∀ e,
      Move c s { s with phase := .returned (.error (.mqtt e)) }
  | releaseIgnored {d : Drain} {id : PacketId} : s.phase = .releasing d id → d ≠ .top →
      Move c s (Publisher.drained s d)
  -- The write side in the send loop.
  | quotaReached {q : ℕ} : s.phase = .checkingQuota → c.quota = some q → q ≤ s.sent →
      Move c s (leave s)
  | quotaLeft : s.phase = .checkingQuota → (∀ q, c.quota = some q → s.sent < q) →
      Move c s { s with phase := .checkingStop }
  | stopSeen : s.phase = .checkingStop → s.stop = true → Move c s (leave s)
  | stopUnseen : s.phase = .checkingStop → s.stop = false → Move c s { s with phase := .pacing }
  | due : s.phase = .pacing → (∀ t, c.deadline s.sent = some t → t ≤ s.clock) →
      Move c s { s with phase := .acquiring }
  | haltPacing : s.phase = .pacing → (c.deadline s.sent).isSome = true →
      (s.stop || s.stopDropped) = true → Move c s (leave s)
  | unacknowledged : s.phase = .acquiring → c.acknowledged = false →
      Move c s { s with phase := .permitted }
  | acquireClosed : s.phase = .acquiring → c.acknowledged = true → s.closed = true →
      Move c s (leave { s with windowClosed := true })
  | acquire : s.phase = .acquiring → c.acknowledged = true → s.closed = false → s.permits ≠ 0 →
      Move c s { s with permits := s.permits - 1, phase := .permitted }
  | haltAcquiring : s.phase = .acquiring → c.acknowledged = true →
      (s.stop || s.stopDropped) = true → Move c s (leave s)
  | assign : s.phase = .permitted → c.acknowledged = true → Move c s
      { s with
        nextPacketId := nextId s.nextPacketId
        phase := .assigned (message c s (some (nextId s.nextPacketId))) s.clock }
  | assignNone : s.phase = .permitted → c.acknowledged = false →
      Move c s { s with phase := .writing (message c s none) }
  | insert {p : Publish} {now : ℕ} {id : PacketId} : s.phase = .assigned p now →
      p.packetId = some id →
      Move c s { s with inFlight := s.inFlight.insert id now, phase := .writing p }
  | insertNone {p : Publish} {now : ℕ} : s.phase = .assigned p now → p.packetId = none →
      Move c s { s with phase := .writing p }
  | write {p : Publish} : s.phase = .writing p →
      Move c s { s with written := s.written ++ [.publish p], phase := .written p }
  | writeFails {p : Publish} : s.phase = .writing p → ∀ e,
      Move c s { s with publishErrors := s.publishErrors + 1, phase := .failing p e }
  | count {p : Publish} : s.phase = .written p → Move c s
      { s with
        published := s.published + 1
        bytesSent := s.bytesSent + p.payload.length
        sent := s.sent + 1
        phase := .draining .top }
  | forfeit {p : Publish} {e : MqttError} : s.phase = .failing p e → Move c s
      { s with
        inFlight := p.packetId.elim s.inFlight s.inFlight.erase
        permits := if c.acknowledged then s.permits + 1 else s.permits
        phase := .returned (.error (.mqtt e)) }
  -- The write side after the send loop.
  | settled {deadline : ℕ} : s.phase = .waiting deadline → s.inFlight = ∅ ∨ deadline ≤ s.clock →
      Move c s { s with phase := .draining .last }
  | unsettled {deadline : ℕ} : s.phase = .waiting deadline → s.inFlight ≠ ∅ →
      s.clock < deadline → Move c s { s with phase := .draining (.waiting deadline) }
  | wake {deadline wake : ℕ} : s.phase = .napping deadline wake → wake ≤ s.clock →
      Move c s { s with phase := .waiting deadline }
  | disconnect : s.phase = .disconnecting →
      Move c s (join c { s with written := s.written ++ [.disconnect .success] })
  | disconnectFails : s.phase = .disconnecting → Move c s (join c s)
  | joined {deadline : ℕ} {error : Option MqttError} : s.phase = .joining deadline →
      s.ack = .finished error → Move c s { s with phase := .returned (result s error) }
  | timeout {deadline : ℕ} : s.phase = .joining deadline → (∀ error, s.ack ≠ .finished error) →
      deadline ≤ s.clock →
      Move c s { s with ack := .aborted, phase := .returned (.error .unfinished) }
  -- The ack side.
  | read {p : Packet} {rest : List Inbound} : s.ack = .reading → s.inbound = .packet p :: rest →
      Move c s (onPacket { s with inbound := rest } p)
  | readEof {rest : List Inbound} : s.ack = .reading → s.inbound = .eof :: rest →
      Move c s { s with inbound := rest, ack := .closing none }
  | readError {e : MqttError} {rest : List Inbound} : s.ack = .reading →
      s.inbound = .error e :: rest →
      Move c s { s with inbound := rest, ack := .closing (some e) }
  | complete {id : PacketId} {code : ReasonCode} {sentAt : ℕ} : s.ack = .completing id code →
      s.inFlight.lookup id = some sentAt →
      Move c s { s with inFlight := s.inFlight.erase id, ack := .freeing sentAt code }
  | completeUnknown {id : PacketId} {code : ReasonCode} : s.ack = .completing id code →
      s.inFlight.lookup id = none → Move c s { s with ack := .reading }
  | freeRefused {sentAt : ℕ} {code : ReasonCode} : s.ack = .freeing sentAt code →
      code.isError = true → Move c s { s with permits := s.permits + 1, ack := .reading }
  | free {sentAt : ℕ} {code : ReasonCode} : s.ack = .freeing sentAt code →
      code.isError = false → Move c s
      { s with
        permits := s.permits + 1
        acknowledged := s.acknowledged + 1
        samples := if c.warmupUntil ≤ sentAt then s.samples ++ [elapsed s sentAt] else s.samples
        ack := .reading }
  | close {error : Option MqttError} : s.ack = .closing error →
      Move c s { s with closed := true, ack := .finished error }

variable {c : Setting} {s s' : State}

/-- **What a panic does**: the write side has returned, by way of a `JoinError`. It was at none of
its writes, and at the most it gave a permit back. -/
theorem panic_eq {e : String} (h : panic c e s = some s') :
    (s.phase = .draining .top ∨ s.phase = .pacing ∨ s.phase = .permitted) ∧
      ∃ permits, s' = { s with permits := permits, phase := .returned (.error (.panicked e)) } := by
  unfold panic at h
  split at h
  next hphase =>
    split at h
    next =>
      cases h
      exact ⟨.inl hphase, s.permits, rfl⟩
    next => cases h
  next hphase =>
    cases h
    exact ⟨.inr (.inl hphase), s.permits, rfl⟩
  next hphase =>
    cases h
    exact ⟨.inr (.inr hphase), _, rfl⟩
  next => cases h

/-- The write side's next step is one of the moves. -/
theorem move_of_advance (h : advance c s = some s') : Move c s s' := by
  unfold advance at h
  split at h
  next d hphase =>
    split at h
    next id rest hpubrels =>
      cases h
      exact .receive hphase hpubrels
    next hpubrels =>
      cases h
      exact .drained hphase hpubrels
  next d id hphase =>
    cases h
    exact .release hphase
  next hphase =>
    rcases hquota : c.quota with - | q
    · rw [hquota] at h
      cases h
      exact .quotaLeft hphase fun q hq ↦ by rw [hquota] at hq; cases hq
    · rw [hquota, Option.any_some] at h
      split at h
      next hle =>
        cases h
        exact .quotaReached hphase hquota (of_decide_eq_true hle)
      next hlt =>
        cases h
        refine .quotaLeft hphase fun q' hq ↦ ?_
        rw [hquota, Option.some.injEq] at hq
        subst hq
        simpa using hlt
  next hphase =>
    split at h
    next hstop =>
      cases h
      exact .stopSeen hphase hstop
    next hstop =>
      cases h
      exact .stopUnseen hphase (Bool.eq_false_iff.2 hstop)
  next hphase =>
    split at h
    next hdue =>
      cases h
      refine .due hphase fun t ht ↦ ?_
      rw [ht] at hdue
      simpa using hdue
    next => cases h
  next hphase =>
    split at h
    next hqos =>
      cases h
      exact .unacknowledged hphase (by simpa using hqos)
    next hqos =>
      replace hqos : c.acknowledged = true := by simpa using hqos
      split at h
      next hclosed =>
        cases h
        exact .acquireClosed hphase hqos hclosed
      next hclosed =>
        split at h
        next => cases h
        next hpermits =>
          cases h
          exact .acquire hphase hqos (Bool.eq_false_iff.2 hclosed) hpermits
  next hphase =>
    split at h
    next hqos =>
      cases h
      exact .assign hphase hqos
    next hqos =>
      cases h
      exact .assignNone hphase (Bool.eq_false_iff.2 hqos)
  next p now hphase =>
    split at h
    next id hid =>
      cases h
      exact .insert hphase hid
    next hid =>
      cases h
      exact .insertNone hphase hid
  next p hphase =>
    cases h
    exact .write hphase
  next p hphase =>
    cases h
    exact .count hphase
  next p e hphase =>
    cases h
    exact .forfeit hphase
  next deadline hphase =>
    split at h
    next hsettled =>
      cases h
      exact .settled hphase hsettled
    next hsettled =>
      cases h
      obtain ⟨hinFlight, hlt⟩ := not_or.1 hsettled
      exact .unsettled hphase hinFlight (not_le.1 hlt)
  next deadline wake hphase =>
    split at h
    next hwake =>
      cases h
      exact .wake hphase hwake
    next => cases h
  next hphase =>
    cases h
    exact .disconnect hphase
  next deadline hphase =>
    split at h
    next error hack =>
      cases h
      exact .joined hphase hack
    next => cases h
  next => cases h

/-- A write that fails is one of the moves. -/
theorem move_of_fail {e : MqttError} (h : fail c e s = some s') : Move c s s' := by
  unfold fail at h
  cases hphase : s.phase with
  | releasing d id =>
    rw [hphase] at h
    by_cases hd : d = .top
    · subst hd
      cases h
      exact .releaseFails hphase e
    · have hdrained : s' = Publisher.drained s d := by
        cases d with
        | top => exact absurd rfl hd
        | _ => exact (Option.some.inj h).symm
      rw [hdrained]
      exact .releaseIgnored hphase hd
  | writing p =>
    rw [hphase] at h
    cases h
    exact .writeFails hphase e
  | disconnecting =>
    rw [hphase] at h
    cases h
    exact .disconnectFails hphase
  | _ =>
    rw [hphase] at h
    cases h

/-- So is a stop arm. -/
theorem move_of_halt (h : halt c s = some s') : Move c s s' := by
  unfold halt at h
  split at h
  next hstop =>
    split at h
    next hphase =>
      split at h
      next hdeadline =>
        cases h
        exact .haltPacing hphase hdeadline hstop
      next => cases h
    next hphase =>
      split at h
      next hqos =>
        cases h
        exact .haltAcquiring hphase hqos hstop
      next => cases h
    next => cases h
  next => cases h

/-- The ack side's next step is one of the moves. -/
theorem move_of_acknowledge (h : acknowledge c s = some s') : Move c s s' := by
  unfold acknowledge at h
  split at h
  next hack =>
    split at h
    next => cases h
    next p rest hinbound =>
      cases h
      exact .read hack hinbound
    next rest hinbound =>
      cases h
      exact .readEof hack hinbound
    next e rest hinbound =>
      cases h
      exact .readError hack hinbound
  next id code hack =>
    split at h
    next sentAt hlookup =>
      cases h
      exact .complete hack hlookup
    next hlookup =>
      cases h
      exact .completeUnknown hack hlookup
  next sentAt code hack =>
    split at h
    next hcode =>
      cases h
      exact .freeRefused hack hcode
    next hcode =>
      cases h
      exact .free hack (Bool.eq_false_iff.2 hcode)
  next error hack =>
    cases h
    exact .close hack
  all_goals cases h

/-- So is the end of the wait for it. -/
theorem move_of_timeout (h : timeout s = some s') : Move c s s' := by
  unfold timeout at h
  split at h
  next => cases h
  next deadline hphase hack =>
    split at h
    next hle =>
      cases h
      exact .timeout hphase hack hle
    next => cases h
  next => cases h

/-- **Every step is one of the moves.** -/
theorem move_of_step (h : Step c s s') : Move c s s' := by
  obtain ⟨a, ha⟩ := h
  cases a with
  | tick nanos =>
    cases ha
    exact .tick nanos
  | deliver x =>
    cases ha
    exact .deliver x
  | raiseStop =>
    cases ha
    exact .raiseStop
  | dropStop =>
    cases ha
    exact .dropStop
  | advance => exact move_of_advance ha
  | fail e => exact move_of_fail ha
  | halt => exact move_of_halt ha
  | acknowledge => exact move_of_acknowledge ha
  | timeout => exact move_of_timeout ha

end Publisher

end Bench

end PulsemqCli
