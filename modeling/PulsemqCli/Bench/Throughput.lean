import PulsemqCli.Bench.Pace
import PulsemqCli.Bench.Publisher.Relay
import PulsemqCli.Bench.Termination
import PulsemqCli.Library.History

/-!
# What is reported of the throughput

The report divides the messages that were published by the time from the spawning of the publishers
to the joining of the last one. `perSecond_spec` says how exact the quotient is in double precision,
and `throughput_exact` what is divided by what: a run stamps the two times, and every message that
is written between. With `--rate`, `publishRate_le` bounds what can be reported.

The counters and the times come from different places, and are tied to each other through stamps.
`stamps` records when `run` spawned the publishers, when it had joined them, and every PUBLISH in
between with the size of its payload. `Timed` is the invariant of a stamped run: the list is in
three parts as far as it goes (`Span`), each task counts the stamps that are its own
(`PublisherTask.Timed`), and each message was stamped no earlier than its schedule allowed
(`OnSchedule`).

The counters of the source are `AtomicU64`, and wrap; those of the model are natural numbers. The
statements about them are therefore guarded by the count being below 2^64. The time is a `Duration`
and does not wrap.

For the ceiling, the last message of each publisher is what matters: by its schedule it was not
written before its turn, so that the messages of a publisher exceed its share of the rate by one at
most (`Timed.writtenBy_le`). Summed over the publishers that is the bound of `publishRate_le`: the
offered rate, one message of each publisher in the elapsed time, and a hundredth for all that is
rounded on the way.
-/

namespace PulsemqCli

namespace Bench

open Clock FloatingPoint

/-! ### Rates in double precision

`per_second` divides by a number of seconds which is itself a sum of two roundings. All of it is
done with `Near`: three errors for the seconds, which count twice in a divisor, one for the count,
one for the quotient, and a bound on all of them at the end. A count is below `2 ^ 64`, and a run
takes less than the longest duration, so nothing overflows and no quotient is too small to be
normal. -/

/-- `per_second`. -/
def perSecond (count elapsed : ℕ) : F64 :=
  let secs := asSecsF64 elapsed
  if secs.le (.ofNat 0) then .ofNat 0 else .div (.ofNat count) secs

/-- Numbers that are not too large are finite. -/
theorem exists_ofNat {n : ℕ} (h : n ≤ 2 ^ 64) :
    ∃ q, (Value.ofNat n : F64).toRat = some q ∧ 0 ≤ q ∧ q ≤ 2 ^ 64 := by
  have hle : (n : ℚ) ≤ (2 ^ 64 : ℕ) := Nat.cast_le.2 h
  exact Value.toRat_round_of_le n.cast_nonneg hle (by decide +kernel)

/-- The seconds of a duration are finite. -/
theorem exists_asSecsF64 {d : ℕ} (h : d ≤ maxDuration) :
    ∃ q, (asSecsF64 d).toRat = some q ∧ 0 ≤ q ∧ q ≤ 2 ^ 65 := by
  have hsecs_le : d / 10 ^ 9 ≤ 2 ^ 64 := by
    unfold maxDuration at h
    omega
  obtain ⟨secs, hsecs, hsecs_nonneg, hsecs_le⟩ := exists_ofNat hsecs_le
  obtain ⟨_, hbillion⟩ := billion_eq
  have hnanos_le : ((d % 10 ^ 9 : ℕ) : ℚ) ≤ (10 ^ 9 : ℕ) :=
    Nat.cast_le.2 (Nat.mod_lt _ (by norm_num)).le
  obtain ⟨nanos, hnanos, hnanos_nonneg, hnanos_le⟩ := Value.toRat_round_of_le (F := .binary64)
    (q := 10 ^ 9) (Nat.cast_nonneg _) hnanos_le (by decide +kernel)
  have hone : nanos / 10 ^ 9 ≤ 1 := div_le_one_of_le₀ hnanos_le (by norm_num)
  obtain ⟨fraction, hfraction, hfraction_nonneg, hfraction_le⟩ := Value.toRat_round_of_le
    (F := .binary64) (q := 1) (div_nonneg hnanos_nonneg (by norm_num)) hone (by decide +kernel)
  have hsum_le : secs + fraction ≤ 2 ^ 65 := by linarith
  obtain ⟨q, hq, hq_nonneg, hq_le⟩ := Value.toRat_round_of_le (F := .binary64) (q := 2 ^ 65)
    (add_nonneg hsecs_nonneg hfraction_nonneg) hsum_le (by decide +kernel)
  obtain ⟨_, hsecs_eq⟩ := Value.eq_finite_of_toRat hsecs
  obtain ⟨_, hnanos_eq⟩ := Value.eq_finite_of_toRat (v := (Value.ofNat (d % 10 ^ 9) : F64)) hnanos
  obtain ⟨_, hfraction_eq⟩ := Value.eq_finite_of_toRat hfraction
  refine ⟨q, ?_, hq_nonneg, hq_le⟩
  rw [asSecsF64, hsecs_eq, hnanos_eq, hbillion, Value.div, if_neg (by norm_num), hfraction_eq]
  exact hq

/-- A rate that is not too small for a double. -/
theorem normal_quotient {x y : ℚ} (hx : x = 0 ∨ 1 / 2 ≤ x) (hy : 0 < y) (hy_le : y ≤ 2 ^ 65) :
    Format.binary64.Normal (x / y) := by
  rcases hx with rfl | hx
  · exact .inl (zero_div y)
  · refine .inr ?_
    have hpow : (2 : ℚ) ^ (-66 : ℤ) ≤ 1 / 2 / 2 ^ 65 := by norm_num
    have hquotient : (1 / 2 / 2 ^ 65 : ℚ) ≤ x / y := by gcongr
    exact ((zpow_le_zpow_right₀ one_le_two (by decide)).trans hpow).trans hquotient

/-- **What `per_second` comes to.** It is finite, and exact up to a share of `2 ^ -49`. -/
theorem perSecond_spec {count elapsed : ℕ} (hcount : count ≤ 2 ^ 64)
    (helapsed : elapsed ≤ maxDuration) :
    ∃ q, (perSecond count elapsed).toRat = some q ∧ 0 ≤ q ∧
      |q - (count : ℚ) * 10 ^ 9 / elapsed| ≤ (count : ℚ) * 10 ^ 9 / elapsed / 2 ^ 49 := by
  have hu := roundoff_nonneg
  have hu_one := roundoff_le_one
  obtain ⟨secs, hsecs, hsecs_nonneg, hsecs_le⟩ := exists_asSecsF64 helapsed
  obtain ⟨_, hsecs_eq⟩ := Value.eq_finite_of_toRat hsecs
  obtain ⟨_, hzero⟩ := ofNat_zero
  have hnear_secs := near_asSecsF64 hsecs
  rcases elapsed.eq_zero_or_pos with rfl | hpos
  · -- No time has passed: there is no quotient to take.
    have hsecs_zero : secs ≤ 0 := by
      have hupper := hnear_secs.upper
      rwa [Nat.cast_zero, zero_div, zero_mul] at hupper
    refine ⟨0, ?_, le_rfl, by simp⟩
    rw [perSecond, hsecs_eq, hzero]
    simp only [Value.le, hsecs_zero, decide_true, if_true]
    rfl
  · have hone : (1 : ℚ) ≤ elapsed := by exact_mod_cast hpos
    have hexact : (0 : ℚ) < elapsed / 10 ^ 9 := by positivity
    have hsecs_ge : 1 / 2 ^ 31 ≤ secs := by
      have hshare : (1 : ℚ) / 10 ^ 9 ≤ elapsed / 10 ^ 9 := by gcongr
      have hthree : (1 / 2 ^ 31 : ℚ) ≤ 1 / 10 ^ 9 * (1 - roundoff) ^ 3 := by
        norm_num [Format.roundoff, Format.binary64]
      have hpow : (0 : ℚ) ≤ (1 - roundoff) ^ 3 := pow_nonneg (sub_nonneg.2 hu_one) 3
      exact hthree.trans ((mul_le_mul_of_nonneg_right hshare hpow).trans hnear_secs.lower)
    have hsecs_pos : 0 < secs := lt_of_lt_of_le (by norm_num) hsecs_ge
    obtain ⟨n, hn, hn_nonneg, hn_le⟩ := exists_ofNat hcount
    obtain ⟨_, hn_eq⟩ := Value.eq_finite_of_toRat hn
    have hnear_n := near_ofNat hn
    have hnear : Near roundoff 7 ((count : ℚ) * 10 ^ 9 / elapsed) (n / secs) := by
      have hmul := hnear_n.mul hu hu_one (hnear_secs.inv hu hu_one roundoff_le_half hexact)
        count.cast_nonneg (inv_nonneg.2 hexact.le)
      rwa [inv_div, ← mul_div_assoc, ← div_eq_mul_inv] at hmul
    have hn_cases : n = 0 ∨ 1 / 2 ≤ n := by
      rcases count.eq_zero_or_pos with rfl | hcount_pos
      · refine .inl (le_antisymm ?_ hn_nonneg)
        have hupper := hnear_n.upper
        rwa [Nat.cast_zero, zero_mul] at hupper
      · refine .inr (le_trans ?_ hnear_n.lower)
        have hcount_ge : (1 : ℚ) ≤ count := by exact_mod_cast hcount_pos
        rw [pow_one]
        have hhalf := roundoff_le_half
        nlinarith
    have hlarge : n / secs ≤ 2 ^ 95 := by
      rw [div_le_iff₀ hsecs_pos]
      calc n ≤ 2 ^ 64 := hn_le
        _ = 2 ^ 95 * (1 / 2 ^ 31) := by norm_num
        _ ≤ 2 ^ 95 * secs := mul_le_mul_of_nonneg_left hsecs_ge (by norm_num)
    obtain ⟨q, hq, hq_nonneg, -⟩ := Value.toRat_round_of_le (F := .binary64) (q := 2 ^ 95)
      (div_nonneg hn_nonneg hsecs_nonneg) hlarge (by decide +kernel)
    refine ⟨q, ?_, hq_nonneg, ?_⟩
    · rw [perSecond, hsecs_eq, hzero, hn_eq]
      simp only [Value.le, not_le.2 hsecs_pos, decide_false, Bool.false_eq_true, if_false]
      rw [Value.div, if_neg hsecs_pos.ne']
      exact hq
    · have hround := hnear.trans hu hu_one (Value.near_of_toRat_round hq
        (normal_quotient hn_cases hsecs_pos hsecs_le))
      have height : (1 + roundoff) ^ 8 - 1 ≤ (1 / 2 ^ 49 : ℚ) := by
        norm_num [Format.roundoff, Format.binary64]
      have hrate : (0 : ℚ) ≤ (count : ℚ) * 10 ^ 9 / elapsed := by positivity
      refine (hround.abs_sub_le hu hu_one hrate).trans ?_
      rw [div_eq_mul_one_div _ ((2 : ℚ) ^ 49)]
      exact mul_le_mul_of_nonneg_left height hrate

/-! ### What a publisher counts

The counters are written to right after the PUBLISH they count, in a step of their own. `Billed`
allows for this one message in between; its size is that of the payload, which is known from its
configuration. -/

/-- The bytes of a payload. -/
def Config.messageSize (config : Config) : ℕ :=
  max config.payloadSize Payload.headerLen

namespace Publisher

open Protocol

variable {c : Setting} {s s' : State} {a : Act}

/-- The message the write side is at. -/
def Phase.message : Phase → Option Publish
  | .assigned p _ | .writing p | .written p => some p
  | _ => none

/-- The counters are those of the messages that were recorded, which all have one size. -/
structure Billed (c : Setting) (s : State) : Prop where
  published : s.published = s.sent
  bytes : s.bytesSent = s.published * c.config.messageSize
  sized : ∀ p, s.phase.message = some p → p.payload.length = c.config.messageSize

/-- A publisher that has sent nothing has billed nothing. -/
theorem billed_initial (c : Setting) (clock : ℕ) (stop : Bool) :
    Billed c { initial c clock with stop := stop } where
  published := rfl
  bytes := (Nat.zero_mul _).symm
  sized := fun _ h ↦ (by cases h)

theorem onPacket_published (s : State) (q : Packet) :
    (onPacket s q).published = s.published := by
  unfold onPacket
  split <;> first | rfl | (split <;> rfl)

theorem onPacket_bytesSent (s : State) (q : Packet) :
    (onPacket s q).bytesSent = s.bytesSent := by
  unfold onPacket
  split <;> first | rfl | (split <;> rfl)

theorem drained_published (s : State) (d : Drain) : (drained s d).published = s.published := by
  cases d <;> rfl

theorem drained_bytesSent (s : State) (d : Drain) : (drained s d).bytesSent = s.bytesSent := by
  cases d <;> rfl

/-- Past the send loop, no message is at hand. -/
theorem message_leave (s : State) : (leave s).phase.message = none := by
  rcases leave_phase s with h | ⟨deadline, h⟩
  all_goals rw [h]; rfl

theorem message_drained (s : State) (d : Drain) : (drained s d).phase.message = none := by
  rcases drained_phase s d with h | h | ⟨deadline, wake, h⟩
  all_goals rw [h]; rfl

/-- **A publisher's counters stay exact.** -/
theorem Billed.move (h : Billed c s) (hm : Move c s s') : Billed c s' := by
  have hbuilt : ∀ id, (message c s id).payload.length = c.config.messageSize :=
    fun id ↦ Payload.length_build _ _
  cases hm with
  | tick | deliver | raiseStop | dropStop | readEof | readError | complete | completeUnknown
  | freeRefused | free | close => exact ⟨h.published, h.bytes, h.sized⟩
  | read =>
    refine ⟨?_, ?_, fun p hp ↦ ?_⟩
    · rw [onPacket_published, onPacket_sent]
      exact h.published
    · rw [onPacket_bytesSent, onPacket_published]
      exact h.bytes
    · rw [onPacket_phase] at hp
      exact h.sized p hp
  | assign | assignNone =>
    refine ⟨h.published, h.bytes, fun p hp ↦ ?_⟩
    rw [← Option.some.inj hp]
    exact hbuilt _
  | insert hphase | insertNone hphase | write hphase =>
    refine ⟨h.published, h.bytes, fun p hp ↦ h.sized p ?_⟩
    rw [hphase]
    exact hp
  | @count p hphase =>
    refine ⟨congrArg (· + 1) h.published, ?_, fun _ hp ↦ (by cases hp)⟩
    have hsize : p.payload.length = c.config.messageSize := h.sized p (by rw [hphase]; rfl)
    show s.bytesSent + p.payload.length = (s.published + 1) * c.config.messageSize
    rw [hsize, h.bytes, Nat.succ_mul]
  | quotaReached | stopSeen | haltPacing | acquireClosed | haltAcquiring =>
    refine ⟨h.published, h.bytes, fun p hp ↦ ?_⟩
    rw [message_leave] at hp
    cases hp
  | drained | releaseIgnored =>
    refine ⟨?_, ?_, fun p hp ↦ ?_⟩
    · rw [drained_published, drained_sent]
      exact h.published
    · rw [drained_bytesSent, drained_published]
      exact h.bytes
    · rw [message_drained] at hp
      cases hp
  | _ => exact ⟨h.published, h.bytes, fun _ hp ↦ (by cases hp)⟩

/-- A panic is no record. -/
theorem Billed.panic {e : String} (h : Billed c s) (hp : Publisher.panic c e s = some s') :
    Billed c s' := by
  obtain ⟨-, permits, rfl⟩ := panic_eq hp
  exact ⟨h.published, h.bytes, fun _ hmessage ↦ by cases hmessage⟩

/-- The message a step writes. -/
def wrote (s : State) : Act → Option Publish
  | .advance =>
    match s.phase with
    | .writing p => some p
    | _ => none
  | _ => none

/-- A PUBLISH is written in the step that leaves its write, and in no other. -/
theorem wrote_eq_some {p : Publish} : wrote s a = some p ↔ a = .advance ∧ s.phase = .writing p := by
  unfold wrote
  constructor
  · intro h
    split at h
    · split at h
      next hphase =>
        cases h
        exact ⟨rfl, hphase⟩
      next => cases h
    · cases h
  · rintro ⟨rfl, hphase⟩
    simp only [hphase]

/-- **The PUBLISHes that are written are those of the steps.** -/
theorem publishes_of_step (ha : step c s a = some s') :
    publishes s' = publishes s + (wrote s a).toList.length := by
  cases hwrote : wrote s a with
  | some p =>
    obtain ⟨rfl, hphase⟩ := wrote_eq_some.1 hwrote
    simp only [step, advance, hphase, Option.some.injEq] at ha
    subst ha
    exact countP_written s _
  | none =>
    have hnone : ∀ p, a = .advance → s.phase ≠ .writing p := by
      intro p hadvance hphase
      rw [wrote_eq_some.2 ⟨hadvance, hphase⟩] at hwrote
      cases hwrote
    by_cases hadvance : a = .advance
    · rcases written_of_move (move_of_step ⟨a, ha⟩) with hw | ⟨x, hw, hx⟩
      · rw [publishes, hw]
        rfl
      · rw [publishes, hw, countP_written]
        cases x with
        | publish p => exact absurd (hx p rfl) (hnone p hadvance)
        | _ => rfl
    · rw [publishes, written_eq_of_not_advance ha fun h ↦ absurd h hadvance]
      rfl

end Publisher

namespace Run

open Protocol Transition

variable {r : Setting}

/-! ### Timed runs

Everything that is stamped is stamped by the step that does it. So what is to be shown of the stamps
is shown step by step: `Timed.task_step` for the counts, `Timed.span_step` for their place between
the stamps of `run`, `Timed.scheduled_step` for the schedule. -/

/-- What the report's throughput is measured by. -/
inductive Stamp (r : Setting) where
  /-- `run` takes the time and spawns the publishers. -/
  | spawned (clock : ℕ)
  /-- A publisher writes a message. -/
  | wrote (i : Fin r.config.publishers) (clock : ℕ) (p : Publish)
  /-- `run` has joined the publishers and takes the time again. -/
  | joined (clock : ℕ)
  deriving DecidableEq

/-- The stamps of an act. -/
def stamps (s : State r) : Act r → List (Stamp r)
  | .settle => [.spawned s.clock]
  | .joinPublishers => [.joined s.clock]
  | .publisher i (.act a) =>
    match s.publishers i with
    | .running _ p => (Publisher.wrote p a).toList.map (.wrote i s.clock)
    | _ => []
  | _ => []

/-- A run with its stamps. -/
abbrev TimedRun (r : Setting) : List (Stamp r) → State r → Prop :=
  Marked (fun _ _ ↦ True) step stamps (initial r)

/-- When the publishers were spawned. -/
def startedAt (es : List (Stamp r)) : Option ℕ :=
  es.findSome? fun
    | .spawned clock => some clock
    | _ => none

/-- When the last of them was joined. -/
def endedAt (es : List (Stamp r)) : Option ℕ :=
  es.findSome? fun
    | .joined clock => some clock
    | _ => none

/-- `started.elapsed()`, once the publishers are joined. -/
def elapsed (es : List (Stamp r)) : ℕ :=
  (endedAt es).getD 0 - (startedAt es).getD 0

/-- `publish_rate`. -/
def State.publishRate (s : State r) (es : List (Stamp r)) : F64 :=
  perSecond s.snapshot.published (elapsed es)

/-- How many messages a publisher has written. -/
def writtenBy (i : Fin r.config.publishers) (es : List (Stamp r)) : ℕ :=
  es.countP fun
    | .wrote i' _ _ => i' = i
    | _ => false

/-- A message of the run's size is written between two instants. -/
def Stamp.Within (started ended : ℕ) : Stamp r → Prop
  | .wrote _ clock p =>
    started ≤ clock ∧ clock ≤ ended ∧ p.payload.length = r.config.messageSize
  | _ => False

/-- A message is written when it is due, by a schedule that begins after the publishers are
spawned. -/
def OnSchedule (before : List (Stamp r)) : Stamp r → Prop
  | .wrote i clock _ => ∃ started start, .spawned started ∈ before ∧ started ≤ start ∧
      ∀ t, r.schedule start (writtenBy i before) = some t → t ≤ clock
  | _ => True

/-- What `run` itself has stamped by now, and what was written between. -/
def Span (es : List (Stamp r)) (clock : ℕ) : Main → Prop
  | .settling _ => es = []
  | .publishing => ∃ started ws, es = .spawned started :: ws ∧ r.baseline ≤ started ∧
      started ≤ clock ∧ ∀ x ∈ ws, x.Within started clock
  | _ => ∃ started ended ws, es = .spawned started :: (ws ++ [.joined ended]) ∧
      r.baseline ≤ started ∧ started ≤ ended ∧ ended ≤ clock ∧ ∀ x ∈ ws, x.Within started ended

/-- The task counts what it has written, and keeps to a schedule that began after the spawning. -/
def PublisherTask.Timed (es : List (Stamp r)) (i : Fin r.config.publishers) :
    PublisherTask → Prop
  | .running c p => writtenBy i es = Publisher.publishes p ∧ c.config = r.config ∧
      Publisher.Billed c p ∧
      ∃ started start, .spawned started ∈ es ∧ started ≤ start ∧ c.deadline = r.schedule start
  | _ => writtenBy i es = 0

structure Timed (es : List (Stamp r)) (s : State r) : Prop where
  span : Span es s.clock s.main
  tasks : ∀ i, (s.publishers i).Timed es i
  scheduled : Throughout OnSchedule es

variable {s s' : State r} {a : Act r} {es : List (Stamp r)}

/-- The publishers are spawned at an instant that is stamped. -/
theorem Span.exists_spawned {clock : ℕ} {main : Main} (h : Span es clock main)
    (hmain : ∀ wake, main ≠ .settling wake) :
    ∃ started, .spawned started ∈ es ∧ started ≤ clock := by
  cases main with
  | settling wake => exact absurd rfl (hmain wake)
  | publishing =>
    obtain ⟨started, ws, rfl, -, hle, -⟩ := h
    exact ⟨started, List.mem_cons_self, hle⟩
  | draining | joining | reported =>
    obtain ⟨started, ended, ws, rfl, -, hle, hle', -⟩ := h
    exact ⟨started, List.mem_cons_self, hle.trans hle'⟩

/-- Before the publishers are spawned nothing is stamped. -/
theorem timed_initial (r : Setting) : Timed [] (initial r) where
  span := rfl
  tasks := fun _ ↦ rfl
  scheduled := throughout_nil

/-- What a step stamps: `run` its own times, and a publisher the message it writes. -/
theorem mem_stamps {x : Stamp r} (h : x ∈ stamps s a) :
    a = .settle ∧ x = .spawned s.clock ∨ a = .joinPublishers ∧ x = .joined s.clock ∨
      ∃ i c p q, a = .publisher i (.act .advance) ∧ s.publishers i = .running c p ∧
        p.phase = .writing q ∧ x = .wrote i s.clock q := by
  unfold stamps at h
  split at h
  next => exact .inl ⟨rfl, List.mem_singleton.1 h⟩
  next => exact .inr (.inl ⟨rfl, List.mem_singleton.1 h⟩)
  next i b =>
    split at h
    next c p hrunning =>
      obtain ⟨q, hq, rfl⟩ := List.mem_map.1 h
      obtain ⟨rfl, hphase⟩ := Publisher.wrote_eq_some.1 (Option.mem_toList.1 hq)
      exact .inr (.inr ⟨i, c, p, q, rfl, hrunning, hphase, rfl⟩)
    next => cases h
  next => cases h

/-- Messages are counted stamp by stamp. -/
theorem writtenBy_append (i : Fin r.config.publishers) (es fs : List (Stamp r)) :
    writtenBy i (es ++ fs) = writtenBy i es + writtenBy i fs :=
  List.countP_append

/-- What is not a publisher's own step writes nothing of its. -/
theorem writtenBy_stamps_of_ne {i : Fin r.config.publishers}
    (h : ∀ c p b, s.publishers i = .running c p → a ≠ .publisher i (.act b)) :
    writtenBy i (stamps s a) = 0 := by
  refine List.countP_eq_zero.2 fun x hx ↦ ?_
  obtain ⟨-, rfl⟩ | ⟨-, rfl⟩ | ⟨i', c, p, q, ha, hrunning, -, rfl⟩ := mem_stamps hx
  · exact Bool.false_ne_true
  · exact Bool.false_ne_true
  · rw [decide_eq_true_eq]
    rintro rfl
    exact h c p _ hrunning ha

/-- A publisher's own step is stamped with what it writes. -/
theorem writtenBy_stamps {i : Fin r.config.publishers} {c : Publisher.Setting}
    {p : Publisher.State} (hrunning : s.publishers i = .running c p) (b : Publisher.Act) :
    writtenBy i (stamps s (.publisher i (.act b))) = (Publisher.wrote p b).toList.length := by
  rw [writtenBy, stamps, hrunning]
  simp only [List.countP_map, Function.comp_def, decide_true, List.countP_true]

/-- A task that writes nothing in a step keeps its count. -/
theorem PublisherTask.Timed.rests {t : PublisherTask} {i : Fin r.config.publishers}
    (h : t.Timed es i) {fs : List (Stamp r)} (hfs : writtenBy i fs = 0) (nanos : ℕ) (stop : Bool) :
    (t.update (later nanos stop)).Timed (es ++ fs) i := by
  have hsame : writtenBy i (es ++ fs) = writtenBy i es := by
    rw [writtenBy_append, hfs, Nat.add_zero]
  cases t with
  | running c p =>
    obtain ⟨hcount, hconfig, hbilled, started, start, hmem, hle, hdeadline⟩ := h
    exact ⟨hsame.trans hcount, hconfig, ⟨hbilled.published, hbilled.bytes, hbilled.sized⟩,
      started, start, List.mem_append_left _ hmem, hle, hdeadline⟩
  | _ => exact hsame.trans h

/-- **A task goes on counting what it writes.** -/
theorem Timed.task_step (h : Timed es s) (hstaged : Staged s) (ha : step s a = some s')
    (i : Fin r.config.publishers) : (s'.publishers i).Timed (es ++ stamps s a) i := by
  have hbefore := h.tasks i
  rcases publisher_of_step ha i with ⟨rfl, htask⟩ | ⟨b, t, rfl, ht, htask⟩ |
    ⟨-, hother, nanos, stop, htask⟩
  · -- Before the publishers are spawned nothing is written.
    have hspan := h.span
    obtain ⟨wake, hmain⟩ := settling_of_settle ha
    rw [hmain] at hspan
    rw [htask, show es = [] from hspan]
    rfl
  · rw [htask]
    unfold PublisherTask.step at ht
    split at ht
    next receiveMaximum hconnecting =>
      cases ht
      rw [hconnecting] at hbefore
      have hmain : ∀ wake, s.main ≠ .settling wake := fun wake hmain ↦ by
        have hunspawned := hstaged.unspawned wake hmain i
        rw [hconnecting] at hunspawned
        cases hunspawned
      obtain ⟨started, hmem, hle⟩ := h.span.exists_spawned hmain
      exact ⟨(writtenBy_append _ _ _).trans (congrArg₂ (· + ·) hbefore rfl), rfl,
        Publisher.billed_initial _ _ _, started, s.clock, List.mem_append_left _ hmem, hle, rfl⟩
    next e hconnecting =>
      cases ht
      rw [hconnecting] at hbefore
      exact (writtenBy_append _ _ _).trans (congrArg₂ (· + ·) hbefore rfl)
    next c p b hrunning =>
      split at ht
      next => cases ht
      next =>
        obtain ⟨p', hp', rfl⟩ := Option.map_eq_some_iff.1 ht
        rw [hrunning] at hbefore
        obtain ⟨hcount, hconfig, hbilled, started, start, hmem, hle, hdeadline⟩ := hbefore
        refine ⟨?_, hconfig, hbilled.move (Publisher.move_of_step ⟨b, hp'⟩), started, start,
          List.mem_append_left _ hmem, hle, hdeadline⟩
        rw [writtenBy_append, writtenBy_stamps hrunning, hcount, Publisher.publishes_of_step hp']
    next c p e hrunning =>
      obtain ⟨p', hp', rfl⟩ := Option.map_eq_some_iff.1 ht
      rw [hrunning] at hbefore
      obtain ⟨hcount, hconfig, hbilled, started, start, hmem, hle, hdeadline⟩ := hbefore
      refine ⟨?_, hconfig, hbilled.panic hp', started, start, List.mem_append_left _ hmem, hle,
        hdeadline⟩
      obtain ⟨-, permits, rfl⟩ := Publisher.panic_eq hp'
      exact (writtenBy_append _ _ _).trans (congrArg₂ (· + ·) hcount rfl)
    next => cases ht
  · rw [htask]
    exact hbefore.rests (writtenBy_stamps_of_ne fun _ _ _ _ ↦ hother _) nanos stop

/-- What was written by now was written by later. -/
theorem Stamp.Within.mono {started ended ended' : ℕ} {x : Stamp r} (h : x.Within started ended)
    (hle : ended ≤ ended') : x.Within started ended' := by
  cases x with
  | wrote i clock p => exact ⟨h.1, h.2.1.trans hle, h.2.2⟩
  | _ => exact h

/-- What is written now is of the run's size. -/
theorem Timed.within_stamps (h : Timed es s) {started : ℕ} (hle : started ≤ s.clock)
    (hsettle : a ≠ .settle) (hjoin : a ≠ .joinPublishers) :
    ∀ x ∈ stamps s a, x.Within started s.clock := by
  intro x hx
  obtain ⟨rfl, -⟩ | ⟨rfl, -⟩ | ⟨i, c, p, q, -, hrunning, hphase, rfl⟩ := mem_stamps hx
  · exact absurd rfl hsettle
  · exact absurd rfl hjoin
  · have htask := h.tasks i
    rw [hrunning] at htask
    obtain ⟨-, hconfig, hbilled, -⟩ := htask
    refine ⟨hle, le_rfl, ?_⟩
    rw [hbilled.sized q (by rw [hphase]; rfl), hconfig]

/-- Once the publishers are joined, or before they are spawned, nothing is written. -/
theorem stamps_eq_nil (hsettle : a ≠ .settle) (hjoin : a ≠ .joinPublishers)
    (hquiet : ∀ i c p q, s.publishers i = .running c p → p.phase ≠ .writing q) :
    stamps s a = [] := by
  refine List.eq_nil_iff_forall_not_mem.2 fun x hx ↦ ?_
  obtain ⟨rfl, -⟩ | ⟨rfl, -⟩ | ⟨i, c, p, q, -, hrunning, hphase, -⟩ := mem_stamps hx
  · exact hsettle rfl
  · exact hjoin rfl
  · exact hquiet i c p q hrunning hphase

/-- The publishers are joined. -/
def Main.IsPast : Main → Prop
  | .draining _ | .joining | .reported => True
  | _ => False

/-- Once the publishers are joined the stamps are complete. -/
theorem span_of_isPast {clock : ℕ} {main : Main} (h : main.IsPast) :
    Span es clock main ↔ ∃ started ended ws, es = .spawned started :: (ws ++ [.joined ended]) ∧
      r.baseline ≤ started ∧ started ≤ ended ∧ ended ≤ clock ∧
      ∀ x ∈ ws, x.Within started ended := by
  cases main with
  | settling | publishing => exact h.elim
  | _ => exact Iff.rfl

/-- Apart from the spawning and the joining, `run` stays on the same side of both. -/
theorem main_of_step (ha : step s a = some s') (hsettle : a ≠ .settle)
    (hjoin : a ≠ .joinPublishers) : s'.main = s.main ∨ s.main.IsPast ∧ s'.main.IsPast := by
  cases a with
  | settle => exact absurd rfl hsettle
  | joinPublishers => exact absurd rfl hjoin
  | tick nanos =>
    cases ha
    exact .inl rfl
  | interrupt =>
    simp only [step] at ha
    split at ha
    all_goals cases ha
    all_goals exact .inl rfl
  | drain | joinSubscribers =>
    simp only [step] at ha
    split at ha
    next hmain =>
      split at ha
      next =>
        cases ha
        rw [hmain]
        exact .inr ⟨trivial, trivial⟩
      next => cases ha
    next => cases ha
  | subscriber j b | publisher i b =>
    obtain ⟨t, -, rfl⟩ := Option.map_eq_some_iff.1 ha
    exact .inl rfl

/-- **The stamps of `run` stay around what is written.** -/
theorem Timed.span_step (h : Timed es s) (hstaged : Staged s) (hjoined : Joined s)
    (hbaseline : r.baseline ≤ s.clock) (ha : step s a = some s') :
    Span (es ++ stamps s a) s'.clock s'.main := by
  have hspan := h.span
  have hclock := clock_le_of_step ⟨a, ha⟩
  by_cases hsettle : a = .settle
  · subst hsettle
    simp only [step] at ha
    split at ha
    next wake hmain =>
      split at ha
      next =>
        cases ha
        rw [hmain] at hspan
        rw [show es = [] from hspan]
        exact ⟨s.clock, [], rfl, hbaseline, le_rfl, fun _ hx ↦ absurd hx List.not_mem_nil⟩
      next => cases ha
    next => cases ha
  by_cases hjoin : a = .joinPublishers
  · subst hjoin
    simp only [step] at ha
    split at ha
    next hmain =>
      split at ha
      next =>
        cases ha
        rw [hmain] at hspan
        obtain ⟨started, ws, rfl, hstarted, hle, hws⟩ := hspan
        exact ⟨started, s.clock, ws, rfl, hstarted, hle, le_rfl, hws⟩
      next => cases ha
    next => cases ha
  have hmain := main_of_step ha hsettle hjoin
  cases hbefore : s.main with
  | settling wake =>
    rw [hbefore] at hspan hmain
    have hnone : stamps s a = [] := stamps_eq_nil hsettle hjoin fun i c p q hrunning ↦ by
      rw [hstaged.unspawned wake hbefore i] at hrunning
      cases hrunning
    rw [hnone, List.append_nil, hmain.resolve_right fun hpast ↦ hpast.1]
    exact hspan
  | publishing =>
    rw [hbefore] at hspan hmain
    obtain ⟨started, ws, rfl, hstarted, hle, hws⟩ := hspan
    rw [hmain.resolve_right fun hpast ↦ hpast.1]
    refine ⟨started, ws ++ stamps s a, rfl, hstarted, hle.trans hclock, fun x hx ↦ ?_⟩
    rcases List.mem_append.1 hx with hx | hx
    · exact (hws x hx).mono hclock
    · exact (h.within_stamps hle hsettle hjoin x hx).mono hclock
  | draining | joining | reported =>
    -- Every publisher has returned: none of them is at a write.
    have hended := hjoined.publishers (fun _ hm ↦ Main.noConfusion (hbefore.symm.trans hm))
      fun hm ↦ Main.noConfusion (hbefore.symm.trans hm)
    have hnone : stamps s a = [] := stamps_eq_nil hsettle hjoin fun i c p q hrunning hphase ↦ by
      have hi := hended i
      rw [hrunning, PublisherTask.isEnded, hphase] at hi
      cases hi
    have hpast : s.main.IsPast := by
      rw [hbefore]
      trivial
    have hpast' : s'.main.IsPast := by
      rcases hmain with hsame | ⟨-, hpast'⟩
      · rwa [hsame]
      · exact hpast'
    obtain ⟨started, ended, ws, hes, hstarted, hle, hle', hws⟩ := (span_of_isPast hpast).1 hspan
    rw [hnone, List.append_nil]
    exact (span_of_isPast hpast').2
      ⟨started, ended, ws, hes, hstarted, hle, hle'.trans hclock, hws⟩

/-- An act has one stamp at most. -/
theorem stamps_eq (s : State r) (a : Act r) : stamps s a = [] ∨ ∃ x, stamps s a = [x] := by
  unfold stamps
  split
  · exact .inr ⟨_, rfl⟩
  · exact .inr ⟨_, rfl⟩
  · split
    next p _ =>
      cases Publisher.wrote p _ with
      | none => exact .inl rfl
      | some q => exact .inr ⟨_, rfl⟩
    next => exact .inl rfl
  · exact .inl rfl

/-- **Every message is written when it is due.** -/
theorem Timed.scheduled_step (h : Timed es s) (hdated : AllDated s)
    (hontime : ∀ i, (s.publishers i).OnTime r) (a : Act r) :
    Throughout OnSchedule (es ++ stamps s a) := by
  rcases stamps_eq s a with hnone | ⟨x, hx⟩
  · rw [hnone, List.append_nil]
    exact h.scheduled
  rw [hx]
  refine throughout_snoc.2 ⟨h.scheduled, ?_⟩
  have hmem : x ∈ stamps s a := by
    rw [hx]
    exact List.mem_singleton_self x
  obtain ⟨-, rfl⟩ | ⟨-, rfl⟩ | ⟨i, c, p, q, -, hrunning, hphase, rfl⟩ := mem_stamps hmem
  · trivial
  · trivial
  · have htask := h.tasks i
    have hi := hontime i
    have hsame := hdated.tasks i
    rw [hrunning] at htask hi hsame
    obtain ⟨hcount, -, -, started, start, hspawned, hle, hdeadline⟩ := htask
    obtain ⟨-, -, honline⟩ := hi
    refine ⟨started, start, hspawned, hle, fun t ht ↦ ?_⟩
    have hdue := honline.next (by rw [hphase]; trivial)
    rw [← hsame.2.1]
    refine hdue t ?_
    rw [hdeadline, ← hcount]
    exact ht

/-- **One step of a timed run.** -/
theorem Timed.step (h : Timed es s) (hs : Reaches Step (initial r) s) (ha : step s a = some s') :
    Timed (es ++ stamps s a) s' := by
  obtain ⟨hdated, hontime⟩ := always_onTime r s hs
  have hstaged := always_staged r s hs
  exact ⟨h.span_step hstaged (always_joined r s hs) hdated.baseline ha,
    fun i ↦ h.task_step hstaged ha i, h.scheduled_step hdated hontime a⟩

/-- A stamped run is a run, and is timed. -/
theorem timed (h : TimedRun r es s) : Reaches Step (initial r) s ∧ Timed es s := by
  refine h.invariant (I := fun es s ↦ Reaches Step (initial r) s ∧ Timed es s)
    ⟨.refl, timed_initial r⟩ ?_
  rintro es s a t ⟨hs, htimed⟩ - ha
  exact ⟨hs.tail ⟨a, ha⟩, htimed.step hs ha⟩

/-! ### What is reported

At the report all publishers have ended, so each has counted what it wrote, and the sum over the
publishers is the number of stamps. The report's rate is the one `per_second` computes of this
number. -/

/-- The stamp is a message's. -/
def Stamp.isWritten : Stamp r → Bool
  | .wrote .. => true
  | _ => false

/-- All messages are the messages of the publishers. -/
theorem sum_writtenBy (es : List (Stamp r)) : ∑ i, writtenBy i es = es.countP Stamp.isWritten := by
  induction es with
  | nil => exact Finset.sum_const_zero
  | cons x es ih =>
    have hcons : ∀ i, writtenBy i (x :: es) = writtenBy i es + writtenBy i [x] :=
      fun i ↦ (writtenBy_append i [x] es).trans (Nat.add_comm _ _)
    rw [Finset.sum_congr rfl fun i _ ↦ hcons i, Finset.sum_add_distrib, ih, List.countP_cons]
    refine congrArg (es.countP Stamp.isWritten + ·) ?_
    cases x with
    | wrote i clock p =>
      have hone : ∀ i', writtenBy i' [.wrote i clock p] = if i = i' then 1 else 0 := by
        intro i'
        rw [writtenBy, List.countP_singleton]
        simp only [decide_eq_true_eq]
      rw [Finset.sum_congr rfl fun i' _ ↦ hone i', Finset.sum_ite_eq, if_pos (Finset.mem_univ i)]
      rfl
    | _ => exact Finset.sum_const_zero

/-- What was written between two instants is all messages. -/
theorem countP_isWritten {started ended : ℕ} {ws : List (Stamp r)}
    (h : ∀ x ∈ ws, x.Within started ended) : ws.countP Stamp.isWritten = ws.length := by
  refine List.countP_eq_length.2 fun x hx ↦ ?_
  have hwithin := h x hx
  cases x with
  | wrote => rfl
  | _ => exact hwithin.elim

/-- A publisher that has returned has counted all it wrote. -/
theorem Timed.counters (h : Timed es s) (hs : Reaches Step (initial r) s)
    {i : Fin r.config.publishers} (hended : (s.publishers i).isEnded = true) :
    (s.publishers i).count (·.published) = writtenBy i es ∧
      (s.publishers i).count (·.bytesSent) = writtenBy i es * r.config.messageSize := by
  have htask := h.tasks i
  have hmetered := always_metered r s hs i
  rcases PublisherTask.isEnded_iff.1 hended with ⟨e, he⟩ | ⟨c, p, result, hp, hphase⟩
  · rw [he] at htask ⊢
    have hnone : writtenBy i es = 0 := htask
    rw [hnone, Nat.zero_mul]
    exact ⟨rfl, rfl⟩
  · rw [hp] at htask hmetered ⊢
    obtain ⟨hcount, hconfig, hbilled, -⟩ := htask
    have hwritten := hmetered.2.written
    rw [hphase] at hwritten
    have hpublished : p.published = writtenBy i es := by
      rw [hbilled.published, hcount, hwritten]
      rfl
    refine ⟨hpublished, ?_⟩
    show p.bytesSent = _
    rw [hbilled.bytes, hpublished, hconfig]

/-- **The published messages are those that were written**, and so are their bytes. -/
theorem Timed.snapshot_eq (h : Timed es s) (hs : Reaches Step (initial r) s)
    (hended : PublishersEnded s) :
    s.snapshot.published = es.countP Stamp.isWritten ∧
      s.snapshot.bytesSent = es.countP Stamp.isWritten * r.config.messageSize := by
  constructor
  · show s.total _ = _
    rw [total_eq_sum, ← sum_writtenBy]
    exact Finset.sum_congr rfl fun i _ ↦ (h.counters hs (hended i)).1
  · show s.total _ = _
    rw [total_eq_sum, ← sum_writtenBy, Finset.sum_mul]
    exact Finset.sum_congr rfl fun i _ ↦ (h.counters hs (hended i)).2

/-- The time that was stamped is the time between the stamps. -/
theorem elapsed_eq {started ended : ℕ} {ws : List (Stamp r)}
    (h : ∀ x ∈ ws, x.Within started ended) :
    elapsed (.spawned started :: (ws ++ [.joined ended])) = ended - started := by
  have hstarted : startedAt (.spawned started :: (ws ++ [.joined ended])) = some started := rfl
  have hended : endedAt (.spawned started :: (ws ++ [.joined ended])) = some ended := by
    have hnone : ws.findSome? (fun
        | Stamp.joined clock => some clock
        | _ => none) = none := by
      refine List.findSome?_eq_none_iff.2 fun x hx ↦ ?_
      have hwithin := h x hx
      cases x with
      | wrote => rfl
      | _ => exact hwithin.elim
    rw [endedAt, List.findSome?_cons, List.findSome?_append, hnone]
    rfl
  rw [elapsed, hstarted, hended]
  rfl

/-- Past the joining, every publisher has ended. -/
theorem isPast_ended (hjoined : Joined s) (hmain : s.main.IsPast) : PublishersEnded s := by
  refine hjoined.publishers (fun wake hm ↦ ?_) fun hm ↦ ?_
  all_goals
    rw [hm] at hmain
    exact hmain

/-- **The reported throughput is what was written.** Of every run, in every interleaving and against
every broker, once the publishers are joined: the messages that are reported as published are those
that publishers wrote to their connections, all between the spawning of the first and the joining of
the last, and the bytes are those of their payloads, as long as the counters hold them, which are
`u64`s; and the rate that is reported is their number by the time between, up to a share of
`2 ^ -49`. -/
theorem throughput_exact (h : TimedRun r es s) (hmain : s.main.IsPast) :
    ∃ started ended ws, es = .spawned started :: (ws ++ [.joined ended]) ∧
      r.baseline ≤ started ∧ started ≤ ended ∧ ended ≤ s.clock ∧
      (∀ x ∈ ws, x.Within started ended) ∧
      (ws.length < 2 ^ 64 → s.snapshot.published = ws.length) ∧
      (ws.length * r.config.messageSize < 2 ^ 64 →
        s.snapshot.bytesSent = ws.length * r.config.messageSize) ∧
      (ws.length < 2 ^ 64 → ended - started ≤ maxDuration →
        ∃ rate, (s.publishRate es).toRat = some rate ∧ 0 ≤ rate ∧
          |rate - (ws.length : ℚ) * 10 ^ 9 / (ended - started : ℕ)| ≤
            (ws.length : ℚ) * 10 ^ 9 / (ended - started : ℕ) / 2 ^ 49) := by
  obtain ⟨hs, htimed⟩ := timed h
  obtain ⟨started, ended, ws, rfl, hstarted, hle, hclock, hws⟩ :=
    (span_of_isPast hmain).1 htimed.span
  obtain ⟨hpublished, hbytes⟩ :=
    htimed.snapshot_eq hs (isPast_ended (always_joined r s hs) hmain)
  have hcount : (Stamp.spawned started :: (ws ++ [.joined ended])).countP Stamp.isWritten =
      ws.length := by
    rw [List.countP_cons, List.countP_append, countP_isWritten hws]
    rfl
  rw [hcount] at hpublished hbytes
  refine ⟨started, ended, ws, rfl, hstarted, hle, hclock, hws, fun _ ↦ hpublished,
    fun _ ↦ hbytes, ?_⟩
  intro hsmall hduration
  rw [State.publishRate, hpublished, elapsed_eq hws]
  exact perSecond_spec hsmall.le hduration

/-- Two messages are written half a second after each other, and the third is not written. -/
def twoWritten (i : Fin pair.config.publishers) : List (Act pair) :=
  [.tick subscriberSettle, .settle, .publisher i (.connected none)] ++
  List.replicate 9 (.publisher i (.act .advance)) ++
  [.tick (5 * 10 ^ 8)] ++
  List.replicate 16 (.publisher i (.act .advance)) ++
  [.tick (5 * 10 ^ 8), .publisher i (.act (.fail .io)), .publisher i (.act .advance),
    .joinPublishers]

theorem throughput_exact_twoWritten : ∃ es s, TimedRun pair es s ∧ elapsed es = 10 ^ 9 ∧
    ∃ started ended ws, es = .spawned started :: (ws ++ [.joined ended]) ∧
      pair.baseline ≤ started ∧ started ≤ ended ∧ ended ≤ s.clock ∧
      (∀ x ∈ ws, x.Within started ended) ∧ s.snapshot.published = 2 ∧
      s.snapshot.bytesSent = 2 * pair.config.messageSize ∧
      ∃ rate, (s.publishRate es).toRat = some rate ∧ 0 ≤ rate ∧
        |rate - (ws.length : ℚ) * 10 ^ 9 / (ended - started : ℕ)| ≤
          (ws.length : ℚ) * 10 ^ 9 / (ended - started : ℕ) / 2 ^ 49 := by
  have hrun : (Marked.perform (fun _ _ ↦ true) step stamps (twoWritten ⟨0, by decide⟩)
      ([], initial pair)).any (fun x ↦ x.2.main = .draining (subscriberSettle + 10 ^ 9) ∧
        x.1.length = 4 ∧ elapsed x.1 = 10 ^ 9) = true := by
    decide +kernel
  obtain ⟨⟨es, s⟩, hperform, hP⟩ := (Option.any_eq_true _ _).1 hrun
  obtain ⟨hmain, hlength, helapsed⟩ := of_decide_eq_true hP
  have hmarked : TimedRun pair es s := .of_perform (fun _ _ _ ↦ trivial) .start hperform
  have hpast : s.main.IsPast := by
    simp only at hmain
    rw [hmain]
    trivial
  obtain ⟨started, ended, ws, rfl, hstarted, hle, hclock, hws, hpublished, hbytes, hrate⟩ :=
    throughput_exact hmarked hpast
  have htwo : ws.length = 2 := by
    simpa using hlength
  rw [elapsed_eq hws] at helapsed
  have hduration : ended - started ≤ maxDuration := helapsed.trans_le (by decide)
  rw [htwo] at hpublished hbytes hrate
  refine ⟨_, s, hmarked, (elapsed_eq hws).trans helapsed, started, ended, ws, rfl, hstarted, hle,
    hclock, hws, hpublished (by decide), hbytes (by decide), ?_⟩
  rw [htwo]
  exact hrate (by decide) hduration

/-! ### A ceiling for what is reported

The schedule is that of the configuration (`Schedule.due`), and its deadlines are accurate
(`Bench.Pace`). A publisher's last message is bounded by its deadline, which is bounded by the stamp
of the joining. -/

/-- The last message that a publisher wrote. -/
theorem exists_of_writtenBy {i : Fin r.config.publishers} {n : ℕ} (h : writtenBy i es = n + 1) :
    ∃ before clock p after, es = before ++ .wrote i clock p :: after ∧
      writtenBy i before = n := by
  induction es using List.reverseRecOn with
  | nil => cases h
  | append_singleton es x ih =>
    rw [writtenBy_append] at h
    cases hlast : writtenBy i [x] with
    | zero =>
      rw [hlast] at h
      obtain ⟨before, clock, p, after, rfl, hbefore⟩ := ih h
      refine ⟨before, clock, p, after ++ [x], ?_, hbefore⟩
      rw [List.append_assoc, List.cons_append]
    | succ k =>
      have hone : writtenBy i [x] ≤ 1 := List.countP_le_length
      cases x with
      | wrote i' clock p =>
        have hi : i' = i := by
          by_contra hne
          rw [writtenBy, List.countP_singleton] at hlast
          simp only [decide_eq_true_eq, if_neg hne] at hlast
          cases hlast
        subst hi
        exact ⟨es, clock, p, [], rfl, by omega⟩
      | _ => cases hlast

/-- A number of messages that keeps within an offered rate is not reported as a higher one. -/
theorem rate_le_of_total {count publishers time gap rate : ℚ} (hrate : 0 < rate)
    (hgap : 100 ≤ publishers * 10 ^ 9 / rate) (htime : 0 < time) (hcount : 0 ≤ count)
    (heq : gap = publishers * 10 ^ 9 / rate * (1 - 1 / 2 ^ 48) - 1 / 2)
    (htotal : count * gap ≤ publishers * (time + 1 / 2 + gap)) :
    count * 10 ^ 9 / time ≤ (rate + publishers * 10 ^ 9 / time) * (1000 / 994) := by
  generalize hperiod : publishers * 10 ^ 9 / rate = period at *
  have hpublishers : publishers = period * rate / 10 ^ 9 := by
    rw [← hperiod]
    field_simp
  have hperiod_pos : 0 < period := by linarith
  have hpublishers_pos : 0 < publishers := by
    rw [hpublishers]
    positivity
  have hgap_ge : period * (994 / 1000) ≤ gap := by
    rw [heq]
    linarith
  have hgap_le : 1 / 2 + gap ≤ period := by
    rw [heq]
    have : 0 ≤ period * (1 / 2 ^ 48) := by positivity
    linarith
  have hall : count * (period * (994 / 1000)) ≤ publishers * (time + period) :=
    calc count * (period * (994 / 1000)) ≤ count * gap :=
          mul_le_mul_of_nonneg_left hgap_ge hcount
      _ ≤ publishers * (time + 1 / 2 + gap) := htotal
      _ ≤ publishers * (time + period) :=
          mul_le_mul_of_nonneg_left (by linarith) hpublishers_pos.le
  have hscaled : count * 10 ^ 9 ≤ rate * (time + period) * (1000 / 994) := by
    rw [hpublishers] at hall
    have hcancel : period * (count * (994 / 1000)) ≤
        period * (rate / 10 ^ 9 * (time + period)) := by linarith
    have hdivided := le_of_mul_le_mul_left hcancel hperiod_pos
    linarith
  calc count * 10 ^ 9 / time ≤ rate * (time + period) * (1000 / 994) / time :=
        div_le_div_of_nonneg_right hscaled htime.le
    _ = (rate + publishers * 10 ^ 9 / time) * (1000 / 994) := by
        rw [hpublishers]
        field_simp

variable {display : F64 → String} {args : BenchArgs} {rate : ℚ} {started ended : ℕ}
  {ws : List (Stamp r)}

/-- The spawning is stamped once. -/
theorem eq_of_spawned (hws : ∀ x ∈ ws, x.Within started ended) {clock : ℕ}
    (h : .spawned clock ∈ Stamp.spawned started :: (ws ++ [.joined ended])) : clock = started := by
  rcases List.mem_cons.1 h with heq | h
  · cases heq
    rfl
  · rcases List.mem_append.1 h with h | h
    · exact (hws _ h).elim
    · cases List.mem_singleton.1 h

/-- Every message was written between the stamps of `run`. -/
theorem within_of_wrote (hws : ∀ x ∈ ws, x.Within started ended) {i : Fin r.config.publishers}
    {clock : ℕ} {p : Publish}
    (h : .wrote i clock p ∈ Stamp.spawned started :: (ws ++ [.joined ended])) :
    clock ≤ ended := by
  rcases List.mem_cons.1 h with heq | h
  · cases heq
  · rcases List.mem_append.1 h with h | h
    · exact (hws _ h).2.1
    · cases List.mem_singleton.1 h

/-- Each publisher keeps within its share of the offered rate while it is timed. -/
theorem Timed.writtenBy_le (h : Timed (.spawned started :: (ws ++ [.joined ended])) s)
    (hpaced : Paced display args r.config rate)
    (hschedule : r.schedule = Schedule.due r.config.perPublisherRate)
    (hle : started ≤ ended) (hclock : ended < endOfClock)
    (hws : ∀ x ∈ ws, x.Within started ended) (i : Fin r.config.publishers) :
    writtenBy i (.spawned started :: (ws ++ [.joined ended])) *
        (r.config.exactPeriod rate * (1 - 1 / 2 ^ 48) - 1 / 2) ≤
      ((ended - started : ℕ) : ℚ) + 1 / 2 +
        (r.config.exactPeriod rate * (1 - 1 / 2 ^ 48) - 1 / 2) := by
  have hlong := hpaced.period.1.2
  have htime : (0 : ℚ) ≤ (ended - started : ℕ) := Nat.cast_nonneg _
  cases hcount : writtenBy i (.spawned started :: (ws ++ [.joined ended])) with
  | zero =>
    rw [Nat.cast_zero, zero_mul]
    linarith
  | succ n =>
    obtain ⟨before, clock, p, after, hes, hbefore⟩ := exists_of_writtenBy hcount
    obtain ⟨started', start, hspawned, hstart, hdue⟩ := h.scheduled before _ after hes
    have hstarted : started' = started := by
      refine eq_of_spawned hws ?_
      rw [hes]
      exact List.mem_append_left _ hspawned
    have hended : clock ≤ ended := by
      refine within_of_wrote hws (i := i) (p := p) ?_
      rw [hes]
      exact List.mem_append_right _ List.mem_cons_self
    rw [hbefore, hschedule] at hdue
    have hlast := hpaced.le_of_due hdue (hended.trans_lt hclock)
    have hwindow : (clock : ℚ) - start ≤ (ended - started : ℕ) := by
      rw [Nat.cast_sub hle]
      have hclock_le : (clock : ℚ) ≤ ended := Nat.cast_le.2 hended
      have hstart_le : (started : ℚ) ≤ start := Nat.cast_le.2 (hstarted ▸ hstart)
      linarith
    rw [Nat.cast_succ, add_mul, one_mul]
    linarith

/-- **The reported rate is within the offered rate**, whatever the broker does and however late the
publishers are: it is no more than a hundredth above the offered rate and one message of each
publisher in the time that was taken. -/
theorem publishRate_le (h : TimedRun r es s) (hmain : s.main.IsPast)
    (hpaced : Paced display args r.config rate)
    (hschedule : r.schedule = Schedule.due r.config.perPublisherRate)
    (hclock : s.clock < endOfClock) (hcount : s.snapshot.published < 2 ^ 64) :
    ∃ reported, (s.publishRate es).toRat = some reported ∧
      reported ≤ (rate + r.config.publishers * 10 ^ 9 / elapsed es) * (101 / 100) := by
  obtain ⟨hs, htimed⟩ := timed h
  obtain ⟨started, ended, ws, rfl, -, hle, hended, hws⟩ := (span_of_isPast hmain).1 htimed.span
  have hpublished := (htimed.snapshot_eq hs (isPast_ended (always_joined r s hs) hmain)).1
  obtain ⟨hrate, hlong⟩ := hpaced.period.1
  have hduration : ended - started ≤ maxDuration := by
    unfold maxDuration
    unfold endOfClock at hclock
    omega
  obtain ⟨reported, hreported, -, herror⟩ := perSecond_spec hcount.le hduration
  rw [State.publishRate, elapsed_eq hws]
  refine ⟨reported, hreported, ?_⟩
  have hupper := (abs_le.1 herror).2
  rcases (ended - started).eq_zero_or_pos with hzero | hpos
  · rw [hzero, Nat.cast_zero, div_zero, zero_div] at hupper
    rw [hzero, Nat.cast_zero, div_zero]
    linarith
  · have htotal : (s.snapshot.published : ℚ) *
        (r.config.exactPeriod rate * (1 - 1 / 2 ^ 48) - 1 / 2) ≤
        r.config.publishers * (((ended - started : ℕ) : ℚ) + 1 / 2 +
          (r.config.exactPeriod rate * (1 - 1 / 2 ^ 48) - 1 / 2)) := by
      rw [hpublished, ← sum_writtenBy, Nat.cast_sum, Finset.sum_mul]
      refine (Finset.sum_le_sum fun i _ ↦ htimed.writtenBy_le hpaced hschedule hle
        (hended.trans_lt hclock) hws i).trans_eq ?_
      rw [Finset.sum_const, Finset.card_univ, Fintype.card_fin, nsmul_eq_mul]
    have hexact := rate_le_of_total hrate hlong (Nat.cast_pos.2 hpos) (Nat.cast_nonneg _) rfl htotal
    have hoffered : (0 : ℚ) ≤ rate + r.config.publishers * 10 ^ 9 / (ended - started : ℕ) := by
      positivity
    linarith

/-- Two messages are written a second after each other, and the third is not written. -/
def twoOfTen (i : Fin metronomeRun.config.publishers) : List (Act metronomeRun) :=
  [.settle, .publisher i (.connected none)] ++
  List.replicate 8 (.publisher i (.act .advance)) ++
  [.tick (10 ^ 9)] ++
  List.replicate 8 (.publisher i (.act .advance)) ++
  [.tick (10 ^ 9)] ++
  List.replicate 6 (.publisher i (.act .advance)) ++
  [.publisher i (.act (.fail .io)), .publisher i (.act .advance), .joinPublishers]

theorem publishRate_le_twoOfTen : ∃ es s, TimedRun metronomeRun es s ∧
    s.snapshot.published = 2 ∧ ∃ reported, (s.publishRate es).toRat = some reported ∧
      reported ≤ (1 + metronome.publishers * 10 ^ 9 / elapsed es) * (101 / 100) := by
  have hrun : (Marked.perform (fun _ _ ↦ true) step stamps (twoOfTen ⟨0, by decide⟩)
      ([], initial metronomeRun)).any (fun x ↦ x.2.main = .draining (2 * 10 ^ 9 + fromSecs 2) ∧
        x.2.clock = 2 * 10 ^ 9 ∧ x.2.snapshot.published = 2) = true := by
    decide +kernel
  obtain ⟨⟨es, s⟩, hperform, hP⟩ := (Option.any_eq_true _ _).1 hrun
  obtain ⟨hmain, hclock, hpublished⟩ := of_decide_eq_true hP
  have hmarked : TimedRun metronomeRun es s := .of_perform (fun _ _ _ ↦ trivial) .start hperform
  have hpast : s.main.IsPast := by
    simp only at hmain
    rw [hmain]
    trivial
  have hfits : s.clock < endOfClock := by
    simp only at hclock
    rw [hclock]
    decide
  have hsmall : s.snapshot.published < 2 ^ 64 := by
    simp only at hpublished
    rw [hpublished]
    decide
  exact ⟨es, s, hmarked, hpublished,
    publishRate_le hmarked hpast paced_metronome rfl hfits hsmall⟩

end Run

end Bench

end PulsemqCli
