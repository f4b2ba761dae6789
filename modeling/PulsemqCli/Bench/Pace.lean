import PulsemqCli.Bench.Schedule
import PulsemqCli.Bench.Quota
import PulsemqCli.Bench.EndToEnd

/-!
# How well the pace is kept

The offered rate is turned into a period of whole nanoseconds, and the period into deadlines, in
floating point. `deadline_sub_le` says how far a deadline can be from where the rate puts it: half a
nanosecond for each message before it, for the period is rounded to a nanosecond, and beyond that a
share of the whole that does not grow.

A publisher waits for the deadline of every message before it writes it, so the rate is a ceiling on
what it writes, however late the broker lets it be and however it catches up.

There are two halves, and they meet in one number. The first is about arithmetic: `Paced` collects
what `--rate` sets up, and `deadlines_accurate` compares the deadlines that the code computes with
the multiples of the exact period, a rational. The second is about runs: a publisher gets past its
deadline only when the clock does (`isDue_of_move`), so the message it writes as number `n` is not
written before the deadline of `n` (`OnTime`). So a publisher that has written `n + 1` messages has
let `n` periods pass since its schedule began, shortened by the error of the first half.

The deadlines are reckoned from the schedule's start and not from the message before. A publisher
that falls behind therefore does catch up, and writes late messages one right after the other; over
any time from its start it still writes no more than were due.
-/

namespace PulsemqCli

namespace Bench

open Protocol Clock FloatingPoint

variable {display : F64 → String} {args : BenchArgs} {config : Config}

/-! ### The period

The rate of a publisher is a quotient, and its period the reciprocal of that, as a duration. Each of
these is one rounding in double precision, and the last one is to whole nanoseconds besides. -/

/-- The nanoseconds between two messages of a publisher, exactly. -/
def Config.exactPeriod (config : Config) (rate : ℚ) : ℚ :=
  config.publishers * 10 ^ 9 / rate

theorem roundoff_le_half : roundoff ≤ 1 / 2 := by
  norm_num [Format.roundoff, Format.binary64]

/-- The number of publishers has one error. -/
theorem near_publishers {publishers : UInt64} (h : publishers.toNat ≠ 0) :
    ∃ n hn, (Value.ofNat publishers.toNat : F64) = .finite n hn ∧ 1 ≤ n ∧
      Near roundoff 1 publishers.toNat n := by
  obtain ⟨n, hn, heq, hone⟩ := toRat_ofNat_publishers h
  refine ⟨n, hn, heq, hone, near_ofNat ?_⟩
  rw [heq]
  rfl

/-- A rate whose period is not beyond the longest duration is not too small for a double, once it
is split: the period of such a share would be. -/
theorem normal_share {share p period : ℚ} (hshare : 0 < share)
    (hp : (Value.round share : F64).toRat = some p) (hp_pos : 0 < p)
    (hperiod : (Value.round (1 / p) : F64).toRat = some period) (hle : period ≤ 2 ^ 64) :
    Format.binary64.Normal share := by
  by_contra hnormal
  have hpow : ∀ k : ℤ, -1074 ≤ k → Format.binary64.nearest (2 ^ k) = 2 ^ k := by
    intro k hk
    have hone := Format.nearest_eq_self (F := .binary64) (m := 1) (e := k) (by decide) hk
    rwa [Int.cast_one, one_mul] at hone
  have hsmall : share ≤ 2 ^ (-1022 : ℤ) := (not_le.1 (not_or.1 hnormal).2).le
  have hp_le : p ≤ 2 ^ (-1022 : ℤ) := by
    rw [← Value.nearest_of_toRat_round hp, ← hpow _ (by decide)]
    exact Format.nearest_mono hshare.le hsmall
  have hlong : (2 : ℚ) ^ (1022 : ℤ) ≤ 1 / p := by
    rw [le_div_iff₀ hp_pos, ← le_div_iff₀' (two_zpow_pos _), one_div, ← zpow_neg]
    exact hp_le
  have hperiod_ge : (2 : ℚ) ^ (1022 : ℤ) ≤ period := by
    rw [← Value.nearest_of_toRat_round hperiod, ← hpow _ (by decide)]
    exact Format.nearest_mono (two_zpow_pos _).le hlong
  have hlt : (2 : ℚ) ^ (64 : ℤ) < 2 ^ (1022 : ℤ) := zpow_lt_zpow_right₀ one_lt_two (by decide)
  exact absurd (hperiod_ge.trans hle) (not_le.2 (by exact_mod_cast hlt))

/-- The period that is computed has seven errors: of the number of publishers and of two quotients,
where the divisors count twice. -/
theorem near_period {rate : ℚ} {hrate : Format.binary64.Representable rate} {publishers : UInt64}
    {period : ℚ} (hpublishers : publishers.toNat ≠ 0)
    (hcheck : Config.checkRate display (.finite rate hrate) publishers = .ok ())
    (hperiod : (Value.div (.ofNat 1) (Value.div (.finite rate hrate)
      (.ofNat publishers.toNat))).toRat = some period) :
    Near roundoff 7 (publishers.toNat / rate) period := by
  have hu := roundoff_nonneg
  have hu_one := roundoff_le_one
  obtain ⟨_, hone⟩ := ofNat_one
  obtain ⟨n, hn, hn_eq, hn_one, hn_near⟩ := near_publishers hpublishers
  obtain ⟨⟨r, hr, hr_eq, hr_pos, hr_max⟩, -, -⟩ := rate_of_checkRate hcheck
  cases hr_eq
  obtain ⟨p, hp, hshare, hp_nonneg⟩ := share_eq_finite hrate hr_pos hr_max hpublishers
  obtain ⟨-, period', hperiod', -, hperiod_le⟩ := checkRate_ok hpublishers hcheck
  rw [hperiod] at hperiod'
  cases hperiod'
  rw [hshare, hone, Value.div] at hperiod
  have hp_pos : 0 < p := by
    refine lt_of_le_of_ne hp_nonneg (Ne.symm fun hzero ↦ ?_)
    rw [if_pos hzero, if_neg one_ne_zero] at hperiod
    cases hperiod
  rw [if_neg hp_pos.ne'] at hperiod
  have hn_pos : 0 < n := zero_lt_one.trans_le hn_one
  have hpublishers_pos : (0 : ℚ) < publishers.toNat := by
    exact_mod_cast Nat.pos_of_ne_zero hpublishers
  have hround : (Value.round (rate / n) : F64).toRat = some p := by
    rw [hn_eq, Value.div, if_neg hn_pos.ne'] at hshare
    rw [hshare]
    rfl
  have hsplit : Near roundoff 2 (rate / publishers.toNat) (rate / n) := by
    have hinv := hn_near.inv hu hu_one roundoff_le_half hpublishers_pos
    have hmul := (Near.refl roundoff rate).mul hu hu_one hinv hr_pos.le
      (inv_nonneg.2 hpublishers_pos.le)
    rwa [← div_eq_mul_inv, ← div_eq_mul_inv] at hmul
  have hnear_share : Near roundoff 3 (rate / publishers.toNat) p :=
    hsplit.trans hu hu_one (Value.near_of_toRat_round hround
      (normal_share (div_pos hr_pos hn_pos) hround hp_pos hperiod hperiod_le))
  have hinverse : Near roundoff 6 (publishers.toNat / rate) (1 / p) := by
    have hinv := hnear_share.inv hu hu_one roundoff_le_half (div_pos hr_pos hpublishers_pos)
    rwa [inv_div, inv_eq_one_div] at hinv
  refine hinverse.trans hu hu_one (Value.near_of_toRat_round hperiod (normal_of_le ?_))
  have hp_le : p ≤ 10 ^ 8 := by
    have hshare_le : rate / publishers.toNat ≤ 10000000 :=
      (div_le_self hr_pos.le (by exact_mod_cast Nat.pos_of_ne_zero hpublishers)).trans hr_max
    calc p ≤ rate / publishers.toNat * (1 + roundoff) ^ 3 := hnear_share.upper
      _ ≤ 10000000 * 10 := mul_le_mul hshare_le
          (by norm_num [Format.roundoff, Format.binary64]) (by positivity) (by norm_num)
      _ = 10 ^ 8 := by norm_num
  exact one_div_le_one_div_of_le hp_pos (hp_le.trans (by norm_num))

/-! ### Deadlines -/

/-- A paced configuration: accepted, and with a rate. -/
structure Paced (display : F64 → String) (args : BenchArgs) (config : Config) (rate : ℚ) :
    Prop where
  accepted : Config.fromArgs display args = .ok config
  rate : args.rate.bind Value.toRat = some rate

/-- What is computed of a paced configuration. -/
theorem Paced.period {rate : ℚ} (h : Paced display args config rate) :
    (0 < rate ∧ 100 ≤ config.exactPeriod rate) ∧
      ∃ (share : F64) (period : ℚ), config.perPublisherRate = some share ∧
        (Value.ofNat 0).lt share = true ∧ (Value.div (.ofNat 1) share).toRat = some period ∧
        0 ≤ period ∧ period ≤ 2 ^ 64 ∧ Near roundoff 7 (config.publishers / rate) period := by
  obtain ⟨⟨hpublishers, hsome⟩, hrate, hchecked⟩ := accepted_of_fromArgs h.accepted
  obtain ⟨value, hvalue, hfinite⟩ := Option.bind_eq_some_iff.1 h.rate
  obtain ⟨hr, rfl⟩ := Value.eq_finite_of_toRat hfinite
  have hcheck := hchecked _ hvalue
  obtain ⟨⟨r, hr', heq, hr_pos, hr_max⟩, -, -⟩ := rate_of_checkRate hcheck
  cases heq
  rw [hpublishers] at hsome
  obtain ⟨hpositive, period, hperiod, hnonneg, hle⟩ := checkRate_ok hsome hcheck
  refine ⟨⟨hr_pos, ?_⟩, _, period, ?_, hpositive, hperiod, hnonneg, hle, ?_⟩
  · have hone : (1 : ℚ) ≤ config.publishers := by
      rw [hpublishers]
      exact_mod_cast Nat.pos_of_ne_zero hsome
    rw [Config.exactPeriod, le_div_iff₀ hr_pos]
    linarith
  · rw [Config.perPublisherRate, hrate, hvalue, hpublishers, Option.map_some]
  · rw [hpublishers]
    exact near_period hsome hcheck hperiod

/-- The schedule of a paced configuration is one of multiples of a period of whole nanoseconds. -/
theorem Paced.schedule_eq {rate : ℚ} (h : Paced display args config rate) {start : Instant}
    {schedule : Schedule} (hnew : Schedule.new start config.perPublisherRate = some schedule) :
    ∃ d : ℕ, schedule = ⟨start, some d⟩ ∧
      |(d : ℚ) - config.exactPeriod rate| ≤ 1 / 2 + config.exactPeriod rate / 2 ^ 50 := by
  obtain ⟨⟨hrate, hlong⟩, share, period, hshare, hpositive, hperiod, hnonneg, hle, hnear⟩ :=
    h.period
  rw [hshare, schedule_new_eq hpositive hperiod hnonneg hle] at hnew
  split at hnew
  · cases hnew
  cases hnew
  have hnanos : 0 ≤ roundHalfEven (period * 10 ^ 9) :=
    le_roundHalfEven (Int.cast_zero.trans_le (mul_nonneg hnonneg (by norm_num)))
  refine ⟨_, rfl, ?_⟩
  have hcast : (((roundHalfEven (period * 10 ^ 9)).toNat : ℕ) : ℚ) =
      roundHalfEven (period * 10 ^ 9) := by
    exact_mod_cast Int.toNat_of_nonneg hnanos
  have hexact : (0 : ℚ) ≤ config.publishers / rate := div_nonneg (Nat.cast_nonneg _) hrate.le
  have hseven : (1 + roundoff) ^ 7 - 1 ≤ (1 / 2 ^ 50 : ℚ) := by
    norm_num [Format.roundoff, Format.binary64]
  have hrelative : |period - config.publishers / rate| ≤ config.publishers / rate * (1 / 2 ^ 50) :=
    (hnear.abs_sub_le roundoff_nonneg roundoff_le_one hexact).trans
      (mul_le_mul_of_nonneg_left hseven hexact)
  obtain ⟨hhalf_lower, hhalf_upper⟩ := abs_le.1 (abs_roundHalfEven_sub_le (period * 10 ^ 9))
  obtain ⟨hlower, hupper⟩ := abs_le.1 hrelative
  have hscale : config.exactPeriod rate = config.publishers / rate * 10 ^ 9 :=
    mul_div_right_comm _ _ _
  rw [hcast, hscale]
  refine abs_le.2 ⟨?_, ?_⟩ <;> linarith

/-- A deadline is a multiple of the period, up to half a nanosecond and a share of its length. -/
theorem abs_deadline_sub_le {start t : Instant} {d index : ℕ}
    (h : (⟨start, some d⟩ : Schedule).deadline index = some (some t)) :
    |((t.nanos - start.nanos : ℤ) : ℚ) - index * d| ≤ 1 / 2 + index * d / 2 ^ 50 := by
  obtain ⟨q, hq, ht⟩ := deadline_eq h
  rw [ht, add_sub_cancel_left]
  exact abs_timesNanos_sub_le hq

/-- **The deadlines keep the offered rate.** A message is due as many exact periods after the start
as there are messages before it, up to half a nanosecond for each of them, a share of `2 ^ -48`, and
half a nanosecond; and no later message is due earlier. -/
theorem deadlines_accurate {rate : ℚ} (h : Paced display args config rate) {start : Instant}
    {schedule : Schedule} (hnew : Schedule.new start config.perPublisherRate = some schedule) :
    (∀ index t, schedule.deadline index = some (some t) →
      |((t.nanos - start.nanos : ℤ) : ℚ) - index * config.exactPeriod rate| ≤
        1 / 2 + index * (1 / 2 + config.exactPeriod rate / 2 ^ 48)) ∧
    ∀ i j t t', i ≤ j → schedule.deadline i = some (some t) →
      schedule.deadline j = some (some t') → t.nanos ≤ t'.nanos := by
  obtain ⟨d, rfl, hd⟩ := h.schedule_eq hnew
  refine ⟨fun index t ht ↦ ?_, fun i j t t' ↦ deadline_mono⟩
  obtain ⟨⟨-, hlong⟩, -⟩ := h.period
  obtain ⟨hd_lower, hd_upper⟩ := abs_le.1 hd
  obtain ⟨hlower, hupper⟩ := abs_le.1 (abs_deadline_sub_le ht)
  generalize config.exactPeriod rate = P at *
  have hindex : (0 : ℚ) ≤ index := index.cast_nonneg
  -- The period's own error, for every message.
  have hperiod_upper : (index : ℚ) * d ≤ index * (P + (1 / 2 + P / 2 ^ 50)) :=
    mul_le_mul_of_nonneg_left (by linarith) hindex
  have hperiod_lower : (index : ℚ) * (P - (1 / 2 + P / 2 ^ 50)) ≤ index * d :=
    mul_le_mul_of_nonneg_left (by linarith) hindex
  have hslack : (index : ℚ) * 100 ≤ index * P := mul_le_mul_of_nonneg_left hlong hindex
  refine abs_le.2 ⟨?_, ?_⟩ <;> linarith

/-- The arguments of one publisher that sends one message a second. -/
def metronomeArgs : BenchArgs :=
  ⟨1, 0, "bench", .atMostOnce, 64, some 10, none, some (.ofNat 1), 100, 0, 2⟩

/-- Their configuration. -/
def metronome : Config :=
  ⟨1, 0, "bench", .atMostOnce, 64, .count 10, some (.ofNat 1), 100, 0, fromSecs 2⟩

/-- One message a second, of one publisher. -/
theorem paced_metronome : Paced (fun _ ↦ "") metronomeArgs metronome 1 where
  accepted := by
    have hcheck : Config.checkRate (fun _ ↦ "") (.ofNat 1) 1 = .ok () := by decide +kernel
    rw [Config.fromArgs, metronomeArgs, if_neg (by decide)]
    simp only [hcheck]
    rfl
  rate := by
    have hone : (Value.ofNat 1 : F64).toRat = some 1 := by decide +kernel
    exact hone

/-- The deadlines of one message a second, from the clock's zero. -/
theorem deadlines_accurate_metronome :
    ∃ start schedule, Schedule.new start metronome.perPublisherRate = some schedule ∧
      (∀ index t, schedule.deadline index = some (some t) →
        |((t.nanos - start.nanos : ℤ) : ℚ) - index * metronome.exactPeriod 1| ≤
          1 / 2 + index * (1 / 2 + metronome.exactPeriod 1 / 2 ^ 48)) ∧
      ∀ i j t t', i ≤ j → schedule.deadline i = some (some t) →
        schedule.deadline j = some (some t') → t.nanos ≤ t'.nanos := by
  have hpositive : (Value.ofNat 0 : F64).lt (.div (.ofNat 1) (.ofNat 1)) = true := by
    decide +kernel
  have hperiod : fromSecsF64 (.div (.ofNat 1) (.div (.ofNat 1) (.ofNat 1))) = some (10 ^ 9) := by
    decide +kernel
  have hnew : Schedule.new ⟨0, by decide, by decide⟩ metronome.perPublisherRate =
      some ⟨⟨0, by decide, by decide⟩, some (10 ^ 9)⟩ := by
    show Schedule.new _ (some (Value.div (.ofNat 1) (.ofNat 1))) = _
    simp only [Schedule.new, hpositive, if_true, hperiod, Option.map_some]
  exact ⟨_, _, hnew, deadlines_accurate paced_metronome hnew⟩

/-! ### What a publisher has written was due

The step past a deadline is the only place where the clock is looked at. From there on the message
is due, and stays so until it is written. -/

namespace Publisher

open Transition

variable {c : Setting} {s s' : State}

/-- The message `n` is due. -/
def IsDue (c : Setting) (s : State) (n : ℕ) : Prop :=
  ∀ t, c.deadline n = some t → t ≤ s.clock

/-- The write side is past the deadline of its message. -/
def Pass.IsPaced : Pass → Prop
  | .acquiring | .holding => True
  | _ => False

/-- What is written was due, and so is what is about to be. -/
structure OnTime (c : Setting) (s : State) : Prop where
  written : ∀ n < publishes s, IsDue c s n
  next : s.phase.pass.IsPaced → IsDue c s (publishes s)

/-- What is due stays due. -/
theorem IsDue.step {n : ℕ} (h : IsDue c s n) (hstep : Step c s s') : IsDue c s' n := by
  obtain ⟨a, ha⟩ := hstep
  exact fun t ht ↦ (h t ht).trans (clock_le_of_step ha)

/-- A publisher that has written nothing has written nothing too early. -/
theorem onTime_initial (c : Setting) (clock : ℕ) (stop : Bool) :
    OnTime c { initial c clock with stop := stop } where
  written := fun _ hn ↦ absurd hn (Nat.not_lt_zero _)
  next := fun h ↦ h.elim

/-- The write side gets past the deadline of its message only when that is due. -/
theorem isDue_of_move (hm : Move c s s') (hs : s.phase = .pacing) (hs' : s'.phase = .acquiring) :
    IsDue c s s.sent := by
  cases hm with
  | due _ hdue => exact hdue
  | tick | deliver | raiseStop | dropStop | readEof | readError | complete | completeUnknown
  | freeRefused | free | close => exact absurd (hs.symm.trans hs') (by simp)
  | read =>
    rw [onPacket_phase] at hs'
    exact absurd (hs.symm.trans hs') (by simp)
  | haltPacing =>
    have hpass := pass_leave s
    rw [hs'] at hpass
    cases hpass
  | receive hphase | drained hphase | release hphase | releaseFails hphase
  | releaseIgnored hphase | quotaReached hphase | quotaLeft hphase | stopSeen hphase
  | stopUnseen hphase | unacknowledged hphase
  | acquireClosed hphase | acquire hphase | haltAcquiring hphase | assign hphase
  | assignNone hphase | insert hphase | insertNone hphase | write hphase | writeFails hphase
  | count hphase | forfeit hphase | settled hphase | unsettled hphase | wake hphase
  | disconnect hphase | disconnectFails hphase | joined hphase | timeout hphase =>
    exact Phase.noConfusion (hphase.symm.trans hs)

/-- **A publisher writes no message before it is due.** -/
theorem OnTime.step (h : OnTime c s) (hmetered : Metered c s) (hstep : Step c s s') :
    OnTime c s' := by
  have hm := move_of_step hstep
  have hwritten : publishes s' = publishes s → ∀ n < publishes s', IsDue c s' n :=
    fun hsame n hn ↦ (h.written n (hsame ▸ hn)).step hstep
  rcases progress_of_move hm with ⟨hsame, hpass⟩ | ⟨hsame, hpass⟩ | ⟨hsame, -, -, hphase'⟩ |
    ⟨hsame, hphase, hphase'⟩ | ⟨hsame, hphase, -, hphase'⟩ | ⟨hwrote, hpass, hpass'⟩
  · refine ⟨hwritten hsame, fun hpaced ↦ ?_⟩
    rw [hpass] at hpaced
    rw [hsame]
    exact (h.next hpaced).step hstep
  · refine ⟨hwritten hsame, fun hpaced ↦ ?_⟩
    rw [hpass] at hpaced
    exact hpaced.elim
  · refine ⟨hwritten hsame, fun hpaced ↦ ?_⟩
    rw [hphase'] at hpaced
    exact hpaced.elim
  · -- The deadline has just passed: nothing of the message is written.
    refine ⟨hwritten hsame, fun _ ↦ ?_⟩
    have hnone : publishes s = s.sent := by
      rw [hmetered.written, hphase]
      rfl
    rw [hsame, hnone]
    exact (isDue_of_move hm hphase hphase').step hstep
  · refine ⟨hwritten hsame, fun _ ↦ ?_⟩
    rw [hsame]
    refine (h.next ?_).step hstep
    rw [hphase]
    trivial
  · refine ⟨fun n hn ↦ ?_, fun hpaced ↦ ?_⟩
    · rw [hwrote] at hn
      rcases Nat.lt_succ_iff_lt_or_eq.1 hn with hn | rfl
      · exact (h.written n hn).step hstep
      · refine (h.next ?_).step hstep
        rw [hpass]
        trivial
    · rw [hpass'] at hpaced
      exact hpaced.elim

/-- A panic writes nothing. -/
theorem OnTime.panic {e : String} (h : OnTime c s) (hp : Publisher.panic c e s = some s') :
    OnTime c s' := by
  obtain ⟨-, permits, rfl⟩ := panic_eq hp
  exact ⟨h.written, fun hpaced ↦ hpaced.elim⟩

end Publisher

/-! ### The offered rate is a ceiling -/

/-- What `Schedule::new(start, rate).deadline(index)` comes to. -/
def Schedule.computed (rate : Option F64) (start index : ℕ) : Option (Option Instant) := do
  let schedule ← Schedule.new (← Instant.ofNat start) rate
  schedule.deadline index

/-- When a message is due. Where the code panics on the way, since there is no such instant, it is
the end of the clock. -/
def Schedule.due (rate : Option F64) (start index : ℕ) : Option ℕ :=
  match Schedule.computed rate start index with
  | some deadline => deadline.map fun t ↦ t.nanos.toNat
  | none => some endOfClock

/-- A deadline is computed by a schedule from its start. -/
theorem Schedule.exists_of_computed {rate : Option F64} {start index : ℕ}
    {deadline : Option Instant} (h : Schedule.computed rate start index = some deadline) :
    ∃ (first : Instant) (schedule : Schedule), first.nanos = start ∧
      Schedule.new first rate = some schedule ∧ schedule.deadline index = some deadline := by
  obtain ⟨first, hfirst, hrest⟩ := Option.bind_eq_some_iff.1 h
  obtain ⟨schedule, hnew, hindex⟩ := Option.bind_eq_some_iff.1 hrest
  refine ⟨first, schedule, ?_, hnew, hindex⟩
  obtain ⟨_, heq⟩ := Option.dite_none_right_eq_some.1 hfirst
  exact congrArg Instant.nanos (Option.some.inj heq).symm

/-- A message that is due within the clock's range is not due too early. -/
theorem Paced.le_of_due {rate : ℚ} (h : Paced display args config rate) {start index clock : ℕ}
    (hdue : ∀ t, Schedule.due config.perPublisherRate start index = some t → t ≤ clock)
    (hclock : clock < endOfClock) :
    index * (config.exactPeriod rate * (1 - 1 / 2 ^ 48) - 1 / 2) ≤ clock - start + 1 / 2 := by
  cases hcomputed : Schedule.computed config.perPublisherRate start index with
  | none =>
    have hend : endOfClock ≤ clock := hdue _ (by simp only [Schedule.due, hcomputed])
    exact absurd hend (not_le.2 hclock)
  | some deadline =>
    obtain ⟨first, schedule, hstart, hnew, hindex⟩ := Schedule.exists_of_computed hcomputed
    cases deadline with
    | none =>
      obtain ⟨d, rfl, -⟩ := h.schedule_eq hnew
      obtain ⟨t, -, ht⟩ := Option.map_eq_some_iff.1 hindex
      cases ht
    | some t =>
      have hdue_eq : Schedule.due config.perPublisherRate start index = some t.nanos.toNat := by
        simp only [Schedule.due, hcomputed, Option.map_some]
      have hle : (t.nanos : ℚ) ≤ clock := by
        have hnat : t.nanos ≤ clock := Int.toNat_le.1 (hdue _ hdue_eq)
        exact_mod_cast hnat
      have hfirst : (first.nanos : ℚ) = start := by exact_mod_cast hstart
      have hclose := (deadlines_accurate h hnew).1 index t hindex
      obtain ⟨hlower, -⟩ := abs_le.1 hclose
      push_cast at hlower
      linarith

namespace Run

open Transition

variable {r : Setting} {s s' : State r}

/-- The task's publisher is on time, on a schedule of the run that begins after the baseline. -/
def PublisherTask.OnTime (r : Setting) : PublisherTask → Prop
  | .running c p => (∃ start, r.baseline ≤ start ∧ c.deadline = r.schedule start) ∧
      Publisher.Metered c p ∧ Publisher.OnTime c p
  | _ => True

/-- A task writes no message before it is due, whatever happens to it. -/
theorem PublisherTask.OnTime.change {t t' : PublisherTask} {i : ℕ} (h : t.OnTime r)
    (hbaseline : r.baseline ≤ s.clock) (hchange : Change s i t t') : t'.OnTime r := by
  cases hchange with
  | stays => exact h
  | spawned | refused => trivial
  | connected => exact ⟨⟨s.clock, hbaseline, rfl⟩, Publisher.metered_initial _ _ _,
      Publisher.onTime_initial _ _ _⟩
  | runs hstep =>
    obtain ⟨hstart, hmetered, hontime⟩ := h
    exact ⟨hstart, hmetered.move (Publisher.move_of_step hstep), hontime.step hmetered hstep⟩
  | panics hpanic =>
    obtain ⟨hstart, hmetered, hontime⟩ := h
    exact ⟨hstart, hmetered.panic hpanic, hontime.panic hpanic⟩

/-- All tasks of a run, at every moment. -/
theorem always_onTime (r : Setting) :
    Always Step (initial r) fun s ↦ AllDated s ∧ ∀ i, (s.publishers i).OnTime r :=
  always_of_invariant ⟨⟨le_rfl, fun _ ↦ trivial⟩, fun _ ↦ trivial⟩
    fun _ _ ⟨hdated, h⟩ hstep ↦ ⟨hdated.step hstep,
      fun i ↦ (h i).change hdated.baseline (change_of_move (move_of_step hstep) i)⟩

/-- Nobody writes a message before its share of the offered rate allows it. -/
def WithinRate (r : Setting) (gap : ℚ) (s : State r) : Prop :=
  ∀ i, ∀ n < (s.publishers i).count Publisher.publishes,
    n * gap ≤ s.clock - r.baseline + 1 / 2

/-- A publisher that is on time is within its rate. -/
theorem withinRate_of_onTime {rate : ℚ} (h : Paced display args r.config rate)
    (hschedule : r.schedule = Schedule.due r.config.perPublisherRate) (hdated : AllDated s)
    (hontime : ∀ i, (s.publishers i).OnTime r) (hclock : s.clock < endOfClock) :
    WithinRate r (r.config.exactPeriod rate * (1 - 1 / 2 ^ 48) - 1 / 2) s := by
  intro i n hn
  have hi := hontime i
  have hsame := hdated.tasks i
  cases htask : s.publishers i with
  | running c p =>
    rw [htask] at hi hsame hn
    obtain ⟨⟨start, hstart, hdeadline⟩, -, honline⟩ := hi
    have hdue := honline.written n hn
    rw [Publisher.IsDue, hdeadline, hschedule, hsame.2.1] at hdue
    refine (h.le_of_due hdue hclock).trans ?_
    have hstart' : (r.baseline : ℚ) ≤ start := Nat.cast_le.2 hstart
    linarith
  | unspawned | connecting | refused =>
    rw [htask] at hn
    exact absurd hn (Nat.not_lt_zero n)

/-- What each publisher writes within the rate, all write within the rate. -/
theorem WithinRate.total {gap : ℚ} (h : WithinRate r gap s) (hgap : 0 ≤ gap)
    (hbaseline : r.baseline ≤ s.clock) :
    s.total Publisher.publishes * gap ≤
      r.config.publishers * (s.clock - r.baseline + 1 / 2 + gap) := by
  have helapsed : (0 : ℚ) ≤ s.clock - r.baseline := sub_nonneg.2 (Nat.cast_le.2 hbaseline)
  have hone : ∀ i, ((s.publishers i).count Publisher.publishes : ℚ) * gap ≤
      s.clock - r.baseline + 1 / 2 + gap := by
    intro i
    cases hcount : (s.publishers i).count Publisher.publishes with
    | zero =>
      rw [Nat.cast_zero, zero_mul]
      linarith
    | succ n =>
      have hlast := h i n (by omega)
      rw [Nat.cast_succ, add_mul, one_mul]
      linarith
  rw [total_eq_sum, Nat.cast_sum, Finset.sum_mul]
  refine (Finset.sum_le_sum fun i _ ↦ hone i).trans_eq ?_
  rw [Finset.sum_const, Finset.card_univ, Fintype.card_fin, nsmul_eq_mul]

/-- **The offered rate is a ceiling.** In every run with `--rate`, a publisher writes its message
`n` only once all but a share of `2 ^ -48` of `n` exact periods has passed, up to half a nanosecond
for each message: whatever the broker does, and however late the publisher is. So all publishers
together never write more than the rate allows, and one message each to begin with. -/
theorem rate_is_ceiling {rate : ℚ} (h : Paced display args r.config rate)
    (hschedule : r.schedule = Schedule.due r.config.perPublisherRate) :
    Always Step (initial r) fun s ↦ s.clock < endOfClock →
      WithinRate r (r.config.exactPeriod rate * (1 - 1 / 2 ^ 48) - 1 / 2) s ∧
      s.total Publisher.publishes * (r.config.exactPeriod rate * (1 - 1 / 2 ^ 48) - 1 / 2) ≤
        r.config.publishers * (s.clock - r.baseline + 1 / 2 +
          (r.config.exactPeriod rate * (1 - 1 / 2 ^ 48) - 1 / 2)) := by
  intro s hs hclock
  obtain ⟨hdated, hontime⟩ := always_onTime r s hs
  have hwithin := withinRate_of_onTime h hschedule hdated hontime hclock
  refine ⟨hwithin, hwithin.total ?_ hdated.baseline⟩
  have hlong := h.period.1.2
  linarith

/-- The run of one message a second. -/
def metronomeRun : Setting where
  config := metronome
  baseline := 0
  schedule := Schedule.due metronome.perPublisherRate

/-- A publisher of one message a second writes no more, from any state on the clock. -/
theorem rate_is_ceiling_metronome :
    Always Step (initial metronomeRun) fun s ↦ s.clock < endOfClock →
      WithinRate metronomeRun (metronome.exactPeriod 1 * (1 - 1 / 2 ^ 48) - 1 / 2) s ∧
      s.total Publisher.publishes * (metronome.exactPeriod 1 * (1 - 1 / 2 ^ 48) - 1 / 2) ≤
        metronome.publishers * (s.clock - metronomeRun.baseline + 1 / 2 +
          (metronome.exactPeriod 1 * (1 - 1 / 2 ^ 48) - 1 / 2)) :=
  rate_is_ceiling (r := metronomeRun) paced_metronome rfl

end Run

end Bench

end PulsemqCli
