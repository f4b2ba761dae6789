import PulsemqCli.Bench.Config

/-!
# The pace of a publisher

`Schedule` computes the deadlines of a publisher's messages from the start of its run: message
`index` is due `index` periods later. The period is a duration, the deadline an instant, and what
does not fit is a panic.

`from_args` accepts no rate whose period is beyond the longest duration. But that, in seconds and
as an `f64`, is `2 ^ 64`, and a duration is shorter; a deadline is an instant, for which half of
that is too long; and the end of the warm-up is one too. Of the deadlines only the last one has to
be looked at that a publisher comes to compute: the last one of its count, or the first one that is
due when the time of the run is over.

`LastDeadlinesFit` looks at one deadline of each publisher: the last one that its count allows, or,
in a run with a duration, an earlier one that is past the end of the run already. One is enough
because a multiple of a period does not get smaller as the index grows, in floating point either
(`DeadlineFits.mono`).
-/

namespace PulsemqCli

namespace Bench

open Protocol Clock FloatingPoint

/-- Deadlines from the start of a run. -/
structure Schedule where
  start : Instant
  interval : Option ℕ

namespace Schedule

/-- A `None`, zero or negative rate means send as fast as the connection allows. The result is
`none` where the period does not fit in a duration. -/
def new (start : Instant) (perSecond : Option F64) : Option Schedule :=
  match perSecond with
  | some rate =>
    if (Value.ofNat 0).lt rate then
      (fromSecsF64 (.div (.ofNat 1) rate)).map fun interval ↦ ⟨start, some interval⟩
    else some ⟨start, none⟩
  | none => some ⟨start, none⟩

/-- When message `index` should be sent, or `some none` for an unthrottled run. The result is
`none` where there is no such instant. -/
def deadline (schedule : Schedule) (index : ℕ) : Option (Option Instant) :=
  match schedule.interval with
  | some interval => ((mulF64 interval (.ofNat index)).bind schedule.start.add).map some
  | none => some none

end Schedule

/-! ### Runs without a panic

What the times of a run are taken from is left open: the instant at which the benchmark began, the
one from which its duration is counted, and the start of each publisher. The operations that panic
in the source are partial here, and a run does not panic if all that are called are defined. -/

namespace Config

/-- The stop condition allows this publisher a message with the index: the count leaves it one, and
the message before is due by the time the run has to end, if it has to: the deadline of a message is
computed only once the one before is sent. The time of a run is counted from `opened`, and a stop is
taken to be seen when it is due. -/
def Allows (config : Config) (opened : Instant) (schedule : Schedule) (publisher index : ℕ) :
    Prop :=
  index < (config.quotaFor publisher).getD (2 ^ 64) ∧
    ∀ limit, config.deadline = some limit → ∀ before, index = before + 1 →
      ∃ due, schedule.deadline before = some due ∧
        ∀ t, due = some t → t.nanos ≤ opened.nanos + limit

/-- The last index that the count allows this publisher; an index is a `u64`. -/
def lastIndex (config : Config) (publisher : ℕ) : Option ℕ :=
  match config.quotaFor publisher with
  | some 0 => none
  | some (quota + 1) => some quota
  | none => some (2 ^ 64 - 1)

/-- The seconds between two messages of a publisher, where that is a number. -/
def periodSecs (config : Config) : Option ℚ :=
  config.perPublisherRate.bind fun rate ↦ (Value.div (.ofNat 1) rate).toRat

end Config

/-- Whatever is computed of times does not panic: the end of the warm-up, and of every publisher
its schedule and the deadlines of the messages it is allowed. -/
def NeverPanics (config : Config) (baseline opened : Instant) (starts : ℕ → Instant) : Prop :=
  (baseline.add config.warmup).isSome ∧
    ∀ publisher < config.publishers,
      ∃ schedule, Schedule.new (starts publisher) config.perPublisherRate = some schedule ∧
        ∀ index, config.Allows opened schedule publisher index → (schedule.deadline index).isSome

/-- The clock reaches the deadline of a message. -/
def DeadlineFits (start : Instant) (interval index : ℕ) : Prop :=
  ∃ q, timesSecs interval index = some q ∧ Reaches start q

/-- A message is due after the time `limit`, by a deadline that the clock reaches. -/
def DueAfter (limit : ℤ) (start : Instant) (interval index : ℕ) : Prop :=
  ∃ q, timesSecs interval index = some q ∧ Reaches start q ∧
    limit < start.nanos + roundHalfEven (q * 10 ^ 9)

/-- The clock reaches the deadlines of every publisher, if they are paced with this period: it
reaches the last one that the count allows, or an earlier one that is past the end of the run. -/
def LastDeadlinesFit (config : Config) (opened : Instant) (starts : ℕ → Instant) (period : ℚ) :
    Prop :=
  ∀ publisher < config.publishers, ∀ last, config.lastIndex publisher = some last →
    DeadlineFits (starts publisher) (roundHalfEven (period * 10 ^ 9)).toNat last ∨
      ∃ limit, config.deadline = some limit ∧ ∃ index < last,
        DueAfter (opened.nanos + limit) (starts publisher)
          (roundHalfEven (period * 10 ^ 9)).toNat index

/-- What the arguments have to be: the warm-up ends on the clock, the period is not `2 ^ 64`
seconds, and the deadlines fit. -/
def TimesFit (config : Config) (baseline opened : Instant) (starts : ℕ → Instant) : Prop :=
  baseline.nanos + config.warmup < 2 ^ 63 * 10 ^ 9 ∧
    ∀ period, config.periodSecs = some period →
      period ≠ 2 ^ 64 ∧ LastDeadlinesFit config opened starts period

/-! ### What `from_args` accepts

The check of `--rate` computes with doubles what `Schedule::new` computes again: the same quotient,
and its reciprocal. So what it lets through is known exactly, up to the comparison with the longest
duration, which is not strict. -/

variable {display : F64 → String} {args : BenchArgs} {config : Config}

/-- What is left of `from_args` once it has accepted. -/
structure Accepted (display : F64 → String) (args : BenchArgs) (config : Config) : Prop where
  publishers : config.publishers = args.publishers.toNat ∧ config.publishers ≠ 0
  rate : config.rate = args.rate
  checked : ∀ rate, args.rate = some rate →
    Config.checkRate display rate args.publishers = .ok ()

theorem accepted_of_fromArgs (h : Config.fromArgs display args = .ok config) :
    Accepted display args config := by
  by_cases hzero : args.publishers = 0
  · rw [Config.fromArgs, if_pos hzero] at h
    cases h
  · have hpublishers : args.publishers.toNat ≠ 0 := fun h ↦ hzero (UInt64.toNat_inj.1 h)
    rw [Config.fromArgs, if_neg hzero] at h
    cases hrate : args.rate with
    | none =>
      simp only [hrate] at h
      cases h
      exact ⟨⟨rfl, hpublishers⟩, hrate.symm, fun rate hr ↦ by cases hrate.symm.trans hr⟩
    | some rate =>
      simp only [hrate] at h
      cases hcheck : Config.checkRate display rate args.publishers with
      | error e =>
        rw [hcheck] at h
        cases h
      | ok u =>
        rw [hcheck] at h
        cases h
        refine ⟨⟨rfl, hpublishers⟩, hrate.symm, fun rate' hr ↦ ?_⟩
        cases hrate.symm.trans hr
        exact hcheck

theorem ofNat_zero : ∃ h, (Value.ofNat 0 : F64) = .finite 0 h :=
  Value.eq_finite_of_toRat (by decide +kernel)

theorem ofNat_one : ∃ h, (Value.ofNat 1 : F64) = .finite 1 h :=
  Value.eq_finite_of_toRat (by decide +kernel)

theorem maxRate_eq : ∃ h, maxRate = .finite 10000000 h :=
  Value.eq_finite_of_toRat (by decide +kernel)

/-- The longest duration is as long as `2 ^ 64` seconds, as an `f64`. -/
theorem asSecsF64_maxDuration : ∃ h, asSecsF64 maxDuration = .finite (2 ^ 64) h :=
  Value.eq_finite_of_toRat (by decide +kernel)

/-- A number of publishers is at least 1 as an `f64`, too. -/
theorem toRat_ofNat_publishers {publishers : UInt64} (h : publishers.toNat ≠ 0) :
    ∃ n hn, (Value.ofNat publishers.toNat : F64) = .finite n hn ∧ 1 ≤ n := by
  have hlow : (1 : ℚ) ≤ publishers.toNat := by exact_mod_cast Nat.one_le_iff_ne_zero.2 h
  have hhigh : (publishers.toNat : ℚ) ≤ (2 ^ 64 : ℕ) := by
    exact_mod_cast publishers.toNat_lt.le
  obtain ⟨n, hn, -⟩ := Value.toRat_round_of_le (F := .binary64) (q := 2 ^ 64)
    (Nat.cast_nonneg _) hhigh (by decide +kernel)
  obtain ⟨hfinite, heq⟩ := Value.eq_finite_of_toRat hn
  refine ⟨n, hfinite, heq, ?_⟩
  rw [← Value.nearest_of_toRat_round hn]
  have hone : Format.binary64.nearest 1 = 1 := by
    simpa using Format.nearest_eq_self (F := .binary64) (m := 1) (e := 0) (by decide) (by decide)
  exact hone.ge.trans (Format.nearest_mono zero_le_one hlow)

/-- A rate that passes its checks is a positive number up to the largest one, and its period is
finite and not beyond the longest duration. -/
theorem rate_of_checkRate {rate : F64} {publishers : UInt64}
    (h : Config.checkRate display rate publishers = .ok ()) :
    (∃ r hr, rate = .finite r hr ∧ 0 < r ∧ r ≤ 10000000) ∧
      (Value.div (.ofNat 1) (rate.div (.ofNat publishers.toNat))).isFinite = true ∧
      (asSecsF64 maxDuration).lt (.div (.ofNat 1) (rate.div (.ofNat publishers.toNat))) =
        false := by
  obtain ⟨_, hzero⟩ := ofNat_zero
  obtain ⟨_, hmaxRate⟩ := maxRate_eq
  rw [Config.checkRate] at h
  split at h
  next => cases h
  next hrate =>
    simp only at h
    split at h
    next => cases h
    next hperiod =>
      rw [Bool.not_eq_true, Bool.or_eq_false_iff, Bool.not_eq_false'] at hperiod
      refine ⟨?_, hperiod⟩
      cases rate with
      | infinite | nan => exact absurd rfl hrate
      | finite r hr =>
        rw [hzero, hmaxRate] at hrate
        simp only [Value.isFinite, Value.toRat, Value.le, Value.lt, Option.isSome_some,
          Bool.not_true, Bool.false_or, Bool.or_eq_true, decide_eq_true_eq, not_or, not_le,
          not_lt] at hrate
        exact ⟨r, hr, rfl, hrate⟩

/-- The share of a publisher is finite, since it is at most the rate. -/
theorem share_eq_finite {r : ℚ} (hr : Format.binary64.Representable r) (hpos : 0 < r)
    (hmax : r ≤ 10000000) {publishers : UInt64} (hpublishers : publishers.toNat ≠ 0) :
    ∃ p hp, (Value.finite r hr).div (.ofNat publishers.toNat) = .finite p hp ∧ 0 ≤ p := by
  obtain ⟨n, _, hn, hle⟩ := toRat_ofNat_publishers hpublishers
  have hn_pos : 0 < n := zero_lt_one.trans_le hle
  have hshare : r / n ≤ (10000000 : ℕ) := by
    refine (div_le_self hpos.le hle).trans ?_
    exact_mod_cast hmax
  obtain ⟨p, hround, hp_nonneg, -⟩ := Value.toRat_round_of_le (F := .binary64) (q := 10000000)
    (div_nonneg hpos.le hn_pos.le) hshare (by decide +kernel)
  obtain ⟨hp, heq⟩ := Value.eq_finite_of_toRat hround
  refine ⟨p, hp, ?_, hp_nonneg⟩
  rw [hn, Value.div, if_neg hn_pos.ne', heq]

/-- **What the check of `--rate` ensures.** The rate of a publisher is positive, and its period a
number from 0 to `2 ^ 64`. -/
theorem checkRate_ok {rate : F64} {publishers : UInt64} (hpublishers : publishers.toNat ≠ 0)
    (h : Config.checkRate display rate publishers = .ok ()) :
    (Value.ofNat 0).lt (rate.div (.ofNat publishers.toNat)) = true ∧
      ∃ period, (Value.div (.ofNat 1) (rate.div (.ofNat publishers.toNat))).toRat = some period ∧
        0 ≤ period ∧ period ≤ 2 ^ 64 := by
  obtain ⟨_, hzero⟩ := ofNat_zero
  obtain ⟨_, hone⟩ := ofNat_one
  obtain ⟨_, hmaxDuration⟩ := asSecsF64_maxDuration
  obtain ⟨⟨r, hr, rfl, hr_pos, hr_max⟩, hfinite, hlong⟩ := rate_of_checkRate h
  obtain ⟨p, hp, hshare, hp_nonneg⟩ := share_eq_finite hr hr_pos hr_max hpublishers
  rw [hshare, hone, Value.div] at hfinite hlong
  rw [hshare, hone, hzero, Value.div]
  -- Were the share zero, the period would be infinite.
  by_cases hp_zero : p = 0
  · rw [if_pos hp_zero, if_neg one_ne_zero] at hfinite
    exact absurd hfinite Bool.false_ne_true
  rw [if_neg hp_zero] at hfinite hlong ⊢
  refine ⟨decide_eq_true (lt_of_le_of_ne hp_nonneg (Ne.symm hp_zero)), ?_⟩
  obtain ⟨period, hround⟩ := Option.isSome_iff_exists.1 hfinite
  refine ⟨period, hround, Value.nonNeg_round (div_nonneg zero_le_one hp_nonneg) _ hround, ?_⟩
  obtain ⟨_, hperiod⟩ := Value.eq_finite_of_toRat hround
  rw [hmaxDuration, hperiod] at hlong
  exact not_lt.1 (of_decide_eq_false hlong)

/-! ### Deadlines

A deadline is a product, rounded as a double and again to nanoseconds, added to the start. Each of
these is monotone in the index, so the messages whose deadlines fit are those up to some index. -/

/-- What the count allows ends with the last index. -/
theorem Config.lt_quotaFor_iff {publisher index : ℕ} :
    index < (config.quotaFor publisher).getD (2 ^ 64) ↔
      ∃ last, config.lastIndex publisher = some last ∧ index ≤ last := by
  rw [Config.lastIndex]
  cases config.quotaFor publisher with
  | none =>
    simp only [Option.getD_none, Option.some_inj, exists_eq_left']
    omega
  | some quota =>
    cases quota with
    | zero => simp
    | succ quota =>
      simp only [Option.getD_some, Option.some_inj, exists_eq_left']
      omega

/-- A deadline can be computed exactly if the clock reaches it. -/
theorem isSome_deadline_iff {start : Instant} {interval index : ℕ} :
    ((⟨start, some interval⟩ : Schedule).deadline index).isSome ↔
      DeadlineFits start interval index := by
  rw [Schedule.deadline, Option.isSome_map]
  exact isSome_add_mulF64_iff start interval index

/-- An earlier deadline fits, too. -/
theorem DeadlineFits.mono {start : Instant} {interval i j : ℕ} (hij : i ≤ j)
    (h : DeadlineFits start interval j) : DeadlineFits start interval i := by
  obtain ⟨q, hq, hreaches⟩ := h
  obtain ⟨p, hp, -, hpq⟩ := timesSecs_mono hij hq
  exact ⟨p, hp, hreaches.mono hpq⟩

/-- What a deadline is, where there is one. -/
theorem deadline_eq {start t : Instant} {d index : ℕ}
    (h : (⟨start, some d⟩ : Schedule).deadline index = some (some t)) :
    ∃ q, timesSecs d index = some q ∧ t.nanos = start.nanos + roundHalfEven (q * 10 ^ 9) := by
  rw [Schedule.deadline] at h
  obtain ⟨t', ht, ht'⟩ := Option.map_eq_some_iff.1 h
  cases ht'
  obtain ⟨nanos, hnanos, hadd⟩ := Option.bind_eq_some_iff.1 ht
  obtain ⟨q, hq, -⟩ := (isSome_add_mulF64_iff start d index).1 (by rw [ht]; rfl)
  obtain ⟨p, hp, hp_nonneg, hpq⟩ := timesSecs_mono le_rfl hq
  have hsecs : (Value.mul (.ofNat index) (asSecsF64 d)).toRat = some q := hq
  rw [mulF64, fromSecsF64, hsecs] at hnanos
  have hround : 0 ≤ roundHalfEven (q * 10 ^ 9) :=
    le_roundHalfEven (Int.cast_zero.trans_le
      (mul_nonneg (hp_nonneg.trans hpq) (by norm_num)))
  simp only at hnanos
  split at hnanos
  · cases hnanos
    rw [Instant.add] at hadd
    split at hadd
    · cases hadd
      refine ⟨q, hq, ?_⟩
      show start.nanos + ((roundHalfEven (q * 10 ^ 9)).toNat : ℤ) = _
      rw [Int.toNat_of_nonneg hround]
    · cases hadd
  · cases hnanos

/-- Deadlines do not go back. -/
theorem deadline_mono {start t t' : Instant} {d i j : ℕ} (hij : i ≤ j)
    (hi : (⟨start, some d⟩ : Schedule).deadline i = some (some t))
    (hj : (⟨start, some d⟩ : Schedule).deadline j = some (some t')) : t.nanos ≤ t'.nanos := by
  obtain ⟨q, hq, ht⟩ := deadline_eq hi
  obtain ⟨q', hq', ht'⟩ := deadline_eq hj
  obtain ⟨p, hp, -, hpq⟩ := timesSecs_mono hij hq'
  cases hq.symm.trans hp
  rw [ht, ht']
  exact Int.add_le_add_left
    (roundHalfEven_mono (mul_le_mul_of_nonneg_right hpq (by norm_num))) _

/-- A deadline that the clock reaches is an instant. -/
theorem DeadlineFits.exists_deadline {start : Instant} {interval index : ℕ}
    (h : DeadlineFits start interval index) :
    ∃ t, (⟨start, some interval⟩ : Schedule).deadline index = some (some t) := by
  obtain ⟨due, hdue⟩ := Option.isSome_iff_exists.1 (isSome_deadline_iff.2 h)
  obtain ⟨t, ht, rfl⟩ := Option.map_eq_some_iff.1 hdue
  exact ⟨t, hdue⟩

/-- A message is due after a time exactly if its deadline is. -/
theorem dueAfter_iff {start t : Instant} {interval index : ℕ} {limit : ℤ}
    (ht : (⟨start, some interval⟩ : Schedule).deadline index = some (some t)) :
    DueAfter limit start interval index ↔ limit < t.nanos := by
  obtain ⟨q, hq, hnanos⟩ := deadline_eq ht
  obtain ⟨q', hq', hreaches⟩ := isSome_deadline_iff.1 (Option.isSome_iff_exists.2 ⟨_, ht⟩)
  cases hq.symm.trans hq'
  rw [hnanos]
  constructor
  · rintro ⟨p, hp, -, hlt⟩
    cases hq.symm.trans hp
    exact hlt
  · exact fun hlt ↦ ⟨q, hq, hreaches, hlt⟩

/-- **One deadline decides.** The deadlines of a publisher can be computed as far as its run goes
exactly if the last one that the count allows can be, or if one that can be is past the end of the
run: the one after it is not computed any more. -/
theorem deadlines_isSome_iff (opened start : Instant) (interval publisher : ℕ) :
    (∀ index, config.Allows opened ⟨start, some interval⟩ publisher index →
        ((⟨start, some interval⟩ : Schedule).deadline index).isSome) ↔
      ∀ last, config.lastIndex publisher = some last → DeadlineFits start interval last ∨
        ∃ limit, config.deadline = some limit ∧ ∃ index < last,
          DueAfter (opened.nanos + limit) start interval index := by
  simp only [isSome_deadline_iff]
  constructor
  · intro hall last hlast
    by_contra! hnot
    obtain ⟨hunfit, hearly⟩ := hnot
    -- The first deadline that does not fit belongs to a message that is not allowed.
    classical
    have hexists : ∃ index, ¬DeadlineFits start interval index := ⟨last, hunfit⟩
    have hfirst : ∀ i < Nat.find hexists, DeadlineFits start interval i :=
      fun i hi ↦ not_not.1 (Nat.find_min hexists hi)
    have hle : Nat.find hexists ≤ last := Nat.find_min' hexists hunfit
    refine Nat.find_spec hexists (hall _ ⟨Config.lt_quotaFor_iff.2 ⟨last, hlast, hle⟩, ?_⟩)
    intro limit hlimit before hbefore
    obtain ⟨t, ht⟩ := (hfirst before (by omega)).exists_deadline
    refine ⟨some t, ht, fun t' ht' ↦ ?_⟩
    cases ht'
    exact not_lt.1 fun hlt ↦ hearly limit hlimit before (by omega) ((dueAfter_iff ht).2 hlt)
  · rintro hlasts index ⟨hquota, htime⟩
    obtain ⟨last, hlast, hle⟩ := Config.lt_quotaFor_iff.1 hquota
    rcases hlasts last hlast with hfits | ⟨limit, hlimit, k, -, hdue⟩
    · exact hfits.mono hle
    · have hk : DeadlineFits start interval k := by
        obtain ⟨q, hq, hreaches, -⟩ := hdue
        exact ⟨q, hq, hreaches⟩
      obtain ⟨t, ht⟩ := hk.exists_deadline
      cases index with
      | zero => exact hk.mono (Nat.zero_le k)
      | succ before =>
        refine hk.mono (Nat.succ_le_of_lt (lt_of_not_ge fun hbefore ↦ ?_))
        obtain ⟨due, hcomputed, hlate⟩ := htime limit hlimit before rfl
        obtain ⟨t', -, rfl⟩ := Option.map_eq_some_iff.1 hcomputed
        have hlt := (dueAfter_iff ht).1 hdue
        exact absurd (hlate t' rfl) (not_le.2 (hlt.trans_le (deadline_mono hbefore ht hcomputed)))

/-- A schedule can be made exactly if its period is not `2 ^ 64` seconds. -/
theorem schedule_new_eq {rate : F64} {period : ℚ} (hrate : (Value.ofNat 0).lt rate = true)
    (hperiod : (Value.div (.ofNat 1) rate).toRat = some period) (hnonneg : 0 ≤ period)
    (hle : period ≤ 2 ^ 64) (start : Instant) :
    Schedule.new start (some rate) = if period = 2 ^ 64 then none
      else some ⟨start, some (roundHalfEven (period * 10 ^ 9)).toNat⟩ := by
  simp only [Schedule.new, hrate, if_true, fromSecsF64, hperiod]
  split
  next hfits => rw [if_neg hfits.2.ne, Option.map_some]
  next hfits =>
    have hlong : period = 2 ^ 64 := hle.antisymm (not_lt.1 fun hlt ↦ hfits ⟨hnonneg, hlt⟩)
    rw [if_pos hlong, Option.map_none]

/-- **When an accepted configuration never panics in time arithmetic.** -/
theorem neverPanics_iff (h : Config.fromArgs display args = .ok config)
    (baseline opened : Instant) (starts : ℕ → Instant) :
    NeverPanics config baseline opened starts ↔ TimesFit config baseline opened starts := by
  obtain ⟨⟨hpublishers, hsome⟩, hrate, hchecked⟩ := accepted_of_fromArgs h
  rw [NeverPanics, TimesFit, Instant.isSome_add]
  refine and_congr_right fun _ ↦ ?_
  cases hargs : args.rate with
  | none =>
    have hunpaced : config.perPublisherRate = none := by
      rw [Config.perPublisherRate, hrate, hargs, Option.map_none]
    refine iff_of_true (fun publisher _ ↦ ?_) fun period hperiod ↦ ?_
    · rw [hunpaced]
      exact ⟨_, rfl, fun _ _ ↦ rfl⟩
    · rw [Config.periodSecs, hunpaced] at hperiod
      cases hperiod
  | some rate =>
    obtain ⟨hpositive, period, hperiod, hnonneg, hle⟩ :=
      checkRate_ok (hpublishers ▸ hsome) (hchecked rate hargs)
    have hpaced : config.perPublisherRate = some (rate.div (.ofNat args.publishers.toNat)) := by
      rw [Config.perPublisherRate, hrate, hargs, hpublishers, Option.map_some]
    have hsecs : config.periodSecs = some period := by
      rw [Config.periodSecs, hpaced, Option.bind_some, hperiod]
    have hnew := schedule_new_eq hpositive hperiod hnonneg hle
    simp only [hpaced, hsecs, hnew, Option.some_inj, forall_eq']
    constructor
    · intro hall
      have hfits : period ≠ 2 ^ 64 := by
        intro hlong
        obtain ⟨schedule, hschedule, -⟩ := hall 0 (Nat.pos_of_ne_zero hsome)
        rw [if_pos hlong] at hschedule
        cases hschedule
      refine ⟨hfits, fun publisher hpublisher ↦ ?_⟩
      obtain ⟨schedule, hschedule, hdeadlines⟩ := hall publisher hpublisher
      rw [if_neg hfits] at hschedule
      cases hschedule
      exact (deadlines_isSome_iff _ _ _ _).1 hdeadlines
    · rintro ⟨hfits, hlast⟩ publisher hpublisher
      rw [if_neg hfits]
      exact ⟨_, rfl, (deadlines_isSome_iff _ _ _ _).2 (hlast publisher hpublisher)⟩

/-- One message a second for ten seconds: the twelfth message would be due too late. -/
theorem neverPanics_iff_tenSeconds :
    ∃ config, Config.fromArgs (fun _ ↦ "") ⟨1, 0, "bench", .atMostOnce, 64, none, some 10,
        some (.ofNat 1), 100, 0, 2⟩ = .ok config ∧ NeverPanics config ⟨0, by decide, by decide⟩
          ⟨0, by decide, by decide⟩ fun _ ↦ ⟨0, by decide, by decide⟩ := by
  have hcheck : Config.checkRate (fun _ ↦ "") (.ofNat 1) 1 = .ok () := by decide +kernel
  have haccepted : Config.fromArgs (fun _ ↦ "") ⟨1, 0, "bench", .atMostOnce, 64, none, some 10,
      some (.ofNat 1), 100, 0, 2⟩ = .ok ⟨1, 0, "bench", .atMostOnce, 64, .duration (fromSecs 10),
        some (.ofNat 1), 100, 0, fromSecs 2⟩ := by
    rw [Config.fromArgs, if_neg (by decide)]
    simp only [hcheck]
    rfl
  refine ⟨_, haccepted, (neverPanics_iff haccepted _ _ _).2 ⟨by decide, fun period hperiod ↦ ?_⟩⟩
  have hone : (Value.div (.ofNat 1) (Value.div (.ofNat 1) (.ofNat 1)) : F64).toRat = some 1 := by
    decide +kernel
  cases hperiod.symm.trans hone
  refine ⟨by norm_num, fun publisher hpublisher last hlast ↦ Or.inr ⟨_, rfl, 11, ?_, ?_⟩⟩
  · cases hlast
    decide
  · show DueAfter (0 + (fromSecs 10 : ℕ)) ⟨0, by decide, by decide⟩
      (roundHalfEven (1 * 10 ^ 9)).toNat 11
    exact ⟨11, by decide +kernel, by decide +kernel, by decide +kernel⟩

/-- A period of `2 ^ 64` seconds is accepted, and is too long for a duration. -/
theorem not_neverPanics_boundary :
    ∃ config, Config.fromArgs (fun _ ↦ "") ⟨1, 0, "bench", .atMostOnce, 64, some 1, none,
        some (.round (1 / 2 ^ 64)), 100, 0, 2⟩ = .ok config ∧
      ∀ baseline opened starts, ¬NeverPanics config baseline opened starts := by
  have hcheck : Config.checkRate (fun _ ↦ "") (.round (1 / 2 ^ 64)) 1 = .ok () := by
    decide +kernel
  have hperiod : fromSecsF64 (.div (.ofNat 1) (.div (.round (1 / 2 ^ 64)) (.ofNat 1))) = none := by
    decide +kernel
  have hpositive : (Value.ofNat 0 : F64).lt (.div (.round (1 / 2 ^ 64)) (.ofNat 1)) = true := by
    decide +kernel
  refine ⟨⟨1, 0, "bench", .atMostOnce, 64, .count 1, some (.round (1 / 2 ^ 64)), 100, 0,
    fromSecs 2⟩, ?_, ?_⟩
  · rw [Config.fromArgs, if_neg (by decide)]
    simp only [hcheck]
    rfl
  · rintro baseline opened starts ⟨-, hall⟩
    obtain ⟨schedule, hschedule, -⟩ := hall 0 Nat.one_pos
    have hnew : Schedule.new (starts 0) (some (.div (.round (1 / 2 ^ 64)) (.ofNat 1))) = none := by
      simp only [Schedule.new, hpositive, if_true, hperiod, Option.map_none]
    cases hnew.symm.trans hschedule

end Bench

end PulsemqCli
