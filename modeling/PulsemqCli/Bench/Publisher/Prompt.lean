import PulsemqCli.Bench.Publisher.Quota

/-!
# How promptly a publisher stops

The send loop looks at the stop signal in three places: at its top, where it reads the value alone,
and in the two `select!`s, the pacing sleep and the permit acquire, whose stop arm is ready when the
value is true or the sender is dropped. A `select!` takes any of its ready arms. So a true value
lets one message through at most, whatever arms are taken; a dropped sender, which the top does not
see, lets through as many as there are `select!`s that take their other arm.

The two kinds of stop are not the same to the code. A raised value stays true, and the next look at
it ends the loop. A dropped sender is an error of the channel, which only the `select!`s see, where
it competes with the other arm. In the source the sender is dropped only when `run` is, so the
second case is a matter of how a benchmark is embedded.

A race is one step of the other arm with the stop arm ready. `lost` counts them along a run, and
messages are bounded by races (`publishes_le_lost`); an execution that never loses more than one is
then as prompt as a raised value.
-/

namespace PulsemqCli

namespace Bench

namespace Publisher

open Protocol Transition

variable {c : Setting} {s s' : State} {a : Act}

/-- The write side waits in a `select!`, at the pacing sleep or at the permit acquire. -/
def Waits (c : Setting) (s : State) : Prop :=
  (s.phase = .pacing ∨ s.phase = .acquiring) ∧ advance c s = none

/-- The write side is at a `select!`: a message without a deadline is not paced, and one that is not
acknowledged needs no permit. -/
def AtSelect (c : Setting) (s : State) : Prop :=
  (s.phase = .pacing ∧ (c.deadline s.sent).isSome = true) ∨
    (s.phase = .acquiring ∧ c.acknowledged = true)

theorem Waits.atSelect (h : Waits c s) : AtSelect c s := by
  obtain ⟨hphase | hphase, hnone⟩ := h
  · refine Or.inl ⟨hphase, ?_⟩
    simp only [advance, hphase] at hnone
    rcases hdeadline : c.deadline s.sent with - | t
    · rw [hdeadline] at hnone
      simp at hnone
    · rfl
  · refine Or.inr ⟨hphase, ?_⟩
    simp only [advance, hphase] at hnone
    rcases hqos : c.acknowledged with - | -
    · rw [hqos] at hnone
      simp at hnone
    · rfl

/-- **At a `select!` the write side can leave**, once the value is true or the sender is dropped. -/
theorem AtSelect.halt (h : AtSelect c s) (hstop : (s.stop || s.stopDropped) = true) :
    step c s .halt = some (leave s) := by
  show (if s.stop || s.stopDropped then _ else none) = _
  rw [if_pos hstop]
  rcases h with ⟨hphase, hdeadline⟩ | ⟨hphase, hqos⟩
  · rw [hphase]
    exact if_pos hdeadline
  · rw [hphase]
    exact if_pos hqos

/-- The stop signal is not taken back. -/
theorem stop_of_step (h : step c s a = some s') :
    (s.stop = true → s'.stop = true) ∧ (s.stopDropped = true → s'.stopDropped = true) := by
  by_cases hserved : a.Served
  · obtain ⟨hstop, hdropped⟩ := sameStop_of_served h hserved
    exact ⟨hstop.trans, hdropped.trans⟩
  · rcases a with _ | _ | - | -
    case raiseStop =>
      obtain rfl := Option.some.inj h
      exact ⟨fun _ ↦ rfl, id⟩
    case dropStop =>
      obtain rfl := Option.some.inj h
      exact ⟨id, fun _ ↦ rfl⟩
    all_goals exact absurd trivial hserved

/-! ### The value -/

/-- Whether the send loop is past the stop check with a message that it has not written. -/
def Pass.begun : Pass → ℕ
  | .outside => 0
  | _ => 1

/-- **Once the value is true, no message is begun.** -/
theorem begun_move (hstop : s.stop = true) (hm : Move c s s') :
    publishes s' + s'.phase.pass.begun ≤ publishes s + s.phase.pass.begun := by
  rcases progress_of_move hm with ⟨hsame, hpass⟩ | ⟨hsame, hpass⟩ | ⟨-, -, hunseen, -⟩ |
    ⟨hsame, hphase, hphase'⟩ | ⟨hsame, hphase, -, hphase'⟩ | ⟨hwrote, hpass, hpass'⟩
  · rw [hsame, hpass]
  · rw [hsame, hpass]
    exact Nat.le_add_right _ _
  · exact absurd (hstop.symm.trans hunseen) Bool.noConfusion
  · rw [hsame, hphase, hphase']
    exact le_rfl
  · rw [hsame, hphase, hphase']
    exact le_rfl
  · rw [hwrote, hpass, hpass']
    exact le_rfl

/-- At most one more message is written in a run from there. -/
theorem publishes_le_of_stop (hstop : s.stop = true) :
    Always (Step c) s fun t ↦ publishes t ≤ publishes s + 1 := by
  have hrun : Always (Step c) s fun t ↦ t.stop = true ∧
      publishes t + t.phase.pass.begun ≤ publishes s + s.phase.pass.begun :=
    always_of_invariant ⟨hstop, le_rfl⟩ fun t u ⟨ht, hle⟩ ⟨a, ha⟩ ↦
      ⟨(stop_of_step ha).1 ht, (begun_move ht (move_of_step ⟨a, ha⟩)).trans hle⟩
  have hbegun : s.phase.pass.begun ≤ 1 := by
    unfold Pass.begun
    split <;> decide
  refine hrun.mono fun t ⟨_, hle⟩ ↦ ?_
  omega

/-! ### The sender -/

/-- The races that a step decides against the stop signal: at a `select!` whose stop arm is ready,
the write side takes the other one. -/
def lost (c : Setting) (s : State) : Act → ℕ
  | .advance => if (halt c s).isSome then 1 else 0
  | _ => 0

theorem AtSelect.lost_advance (h : AtSelect c s) (hstop : (s.stop || s.stopDropped) = true) :
    lost c s .advance = 1 := by
  have hhalt : Publisher.halt c s = some (leave s) := h.halt hstop
  rw [lost, hhalt]
  rfl

/-- A step, and how many races have been lost by then. -/
def Raced (c : Setting) (x y : State × ℕ) : Prop :=
  ∃ a, step c x.1 a = some y.1 ∧ y.2 = x.2 + lost c x.1 a

/-- Every run loses some number of races. -/
theorem exists_raced (h : Reaches (Step c) s s') (n : ℕ) :
    ∃ n', Reaches (Raced c) (s, n) (s', n') := by
  induction h with
  | refl => exact ⟨n, .refl⟩
  | tail _ hstep ih =>
    obtain ⟨n', hreach⟩ := ih
    obtain ⟨a, ha⟩ := hstep
    exact ⟨_, hreach.tail ⟨a, ha, rfl⟩⟩

/-- `Schedule::deadline` maps over the interval: either every message has a deadline, or none. -/
def Scheduled (c : Setting) : Prop :=
  ∃ interval : Option (ℕ → ℕ), ∀ n, c.deadline n = interval.map (· n)

/-- Every message passes a `select!`. -/
def Selects (c : Setting) : Prop :=
  c.acknowledged = true ∨ ∀ n, (c.deadline n).isSome = true

theorem AtSelect.selects (h : AtSelect c s) (hscheduled : Scheduled c) : Selects c := by
  obtain ⟨interval, hinterval⟩ := hscheduled
  rcases h with ⟨-, hdeadline⟩ | ⟨-, hqos⟩
  · refine Or.inr fun n ↦ ?_
    rw [hinterval, Option.isSome_map] at hdeadline ⊢
    exact hdeadline
  · exact Or.inl hqos

/-- Only the write side's own step gets it past a `select!` to its message. -/
theorem eq_advance_of_phase (h : step c s a = some s')
    (hphase : s.phase = .pacing ∧ s'.phase = .acquiring ∨
      s.phase = .acquiring ∧ s'.phase = .permitted) : a = .advance := by
  have hpass : s'.phase.pass ≠ .outside ∧ s'.phase ≠ s.phase := by
    rcases hphase with ⟨hs, hs'⟩ | ⟨hs, hs'⟩ <;> rw [hs, hs'] <;> simp [Phase.pass]
  rcases a with nanos | x | - | - | - | e | - | - | -
  case advance => rfl
  case fail =>
    have hnone : fail c e s = none := by
      rcases hphase with ⟨hs, -⟩ | ⟨hs, -⟩ <;> rw [fail, hs]
    exact absurd (hnone.symm.trans h) (by simp)
  case halt =>
    have hleave : s' = leave s := by
      change halt c s = some s' at h
      unfold halt at h
      rcases hphase with ⟨hs, -⟩ | ⟨hs, -⟩
      all_goals
        rw [hs] at h
        split at h
        next => exact (Option.some.inj (Option.ite_none_right_eq_some.1 h).2).symm
        next => simp at h
    exact absurd (hleave ▸ pass_leave s) hpass.1
  case timeout =>
    have hnone : timeout s = none := by
      rcases hphase with ⟨hs, -⟩ | ⟨hs, -⟩ <;> rw [timeout, hs]
    exact absurd (hnone.symm.trans h) (by simp)
  case acknowledge => exact absurd (acknowledge_phase h) hpass.2
  all_goals exact absurd (congrArg State.phase (Option.some.inj h).symm) hpass.2

/-- Whether the send loop is past the last `select!` with a message that it has not written. -/
def Pass.released (c : Setting) : Pass → ℕ
  | .holding => 1
  | .acquiring => if c.acknowledged then 0 else 1
  | _ => 0

/-- **Once the sender is dropped, a message gets past its last `select!` only as a race is
lost.** -/
theorem released_step (hselects : Selects c) (hdropped : s.stopDropped = true)
    (ha : step c s a = some s') :
    publishes s' + s'.phase.pass.released c ≤
      publishes s + s.phase.pass.released c + lost c s a := by
  have hstop : (s.stop || s.stopDropped) = true := by rw [hdropped, Bool.or_true]
  rcases progress_of_move (move_of_step ⟨a, ha⟩) with ⟨hsame, hpass⟩ | ⟨hsame, hpass⟩ |
    ⟨hsame, -, -, hphase'⟩ | ⟨hsame, hphase, hphase'⟩ | ⟨hsame, hphase, -, hphase'⟩ |
    ⟨hwrote, hpass, hpass'⟩
  · rw [hsame, hpass]
    exact Nat.le_add_right _ _
  · rw [hsame, hpass, Nat.add_assoc]
    exact Nat.le_add_right _ _
  · rw [hsame, hphase', Nat.add_assoc]
    exact Nat.le_add_right _ _
  · obtain rfl := eq_advance_of_phase ha (Or.inl ⟨hphase, hphase'⟩)
    rw [hsame, hphase, hphase']
    rcases hqos : c.acknowledged with - | -
    · have hdeadline := (hselects.resolve_left (by rw [hqos]; exact Bool.false_ne_true)) s.sent
      rw [AtSelect.lost_advance (Or.inl ⟨hphase, hdeadline⟩) hstop]
      simp [Pass.released, hqos, Phase.pass]
    · simp [Pass.released, hqos, Phase.pass]
  · obtain rfl := eq_advance_of_phase ha (Or.inr ⟨hphase, hphase'⟩)
    rw [hsame, hphase, hphase']
    rcases hqos : c.acknowledged with - | -
    · simp [Pass.released, hqos, Phase.pass]
    · rw [AtSelect.lost_advance (Or.inr ⟨hphase, hqos⟩) hstop]
      simp [Pass.released, hqos, Phase.pass]
  · rw [hwrote, hpass, hpass']
    exact Nat.le_add_right _ _

/-- From a `select!` on, at most one message is written for each race that is lost. -/
theorem publishes_le_lost (hselect : AtSelect c s) (hscheduled : Scheduled c)
    (hdropped : s.stopDropped = true) {t : State} {n : ℕ}
    (h : Reaches (Raced c) (s, 0) (t, n)) : publishes t ≤ publishes s + n := by
  have hrun : Always (Raced c) (s, 0) fun x ↦ x.1.stopDropped = true ∧
      publishes x.1 + x.1.phase.pass.released c ≤ publishes s + x.2 := by
    refine always_of_invariant ⟨hdropped, ?_⟩ ?_
    · rcases hselect with ⟨hphase, -⟩ | ⟨hphase, hqos⟩
      · rw [hphase]
        exact le_rfl
      · rw [hphase]
        simp [Pass.released, hqos, Phase.pass]
    · rintro ⟨t, n⟩ ⟨u, m⟩ ⟨ht, hle⟩ ⟨a, ha, hm⟩
      have hstep := released_step (hselect.selects hscheduled) ht ha
      refine ⟨(stop_of_step ha).2 ht, ?_⟩
      simp only at hle hm hstep ⊢
      omega
  have hle := (hrun _ h).2
  simp only at hle
  omega

/-! ### Both -/

/-- The stop signal is prompt in this state, whatever happens next. -/
structure Prompt (c : Setting) (s : State) : Prop where
  /-- Once the value is true, at most one further PUBLISH is completed. -/
  raised : s.stop = true → Always (Step c) s fun t ↦ publishes t ≤ publishes s + 1
  /-- A write side that waits can leave its send loop. -/
  leaves : (s.stop || s.stopDropped) = true → Waits c s → step c s .halt = some (leave s)

theorem prompt (c : Setting) (s : State) : Prompt c s where
  raised := publishes_le_of_stop
  leaves hstop hwaits := hwaits.atSelect.halt hstop

/-- **The stop signal is prompt.** In every run: once the value is true, the write side completes at
most one further PUBLISH; once the sender is dropped while it waits, at most one for each `select!`
that takes its other arm although the stop arm is ready; and no write side waits at the pacing
sleep or at the permit acquire that could not leave its send loop at once. -/
theorem stops_promptly (c : Setting) (clock : ℕ) :
    Always (Step c) (initial c clock) fun s ↦ Prompt c s ∧
      (Scheduled c → Waits c s →
        (∀ t, Reaches (Step c) { s with stopDropped := true } t →
          ∃ n, Reaches (Raced c) ({ s with stopDropped := true }, 0) (t, n)) ∧
        ∀ t n, Reaches (Raced c) ({ s with stopDropped := true }, 0) (t, n) →
          publishes t ≤ publishes s + n) := by
  refine fun s _ ↦ ⟨prompt c s, fun hscheduled hwaits ↦ ⟨fun t ht ↦ exists_raced ht 0, ?_⟩⟩
  have hselect : AtSelect c { s with stopDropped := true } := hwaits.atSelect
  exact fun t n ↦ publishes_le_lost hselect hscheduled rfl

/-- The stop signal as one might expect it: a dropped sender, too, lets one message through at
most. -/
def WithinOne (c : Setting) (clock : ℕ) : Prop :=
  Always (Step c) (initial c clock) fun s ↦ Prompt c s ∧
    (Waits c s → Always (Step c) { s with stopDropped := true } fun t ↦
      publishes t ≤ publishes s + 1)

/-- At QoS 1 with a window of one, the sender is dropped while the write side waits for the first
acknowledgement. Two acknowledgements that come in time let two messages through. -/
theorem not_withinOne : ¬WithinOne (alone .atLeastOnce (.count 3) 1) 0 := by
  intro h
  let c := alone .atLeastOnce (.count 3) 1
  let id := nextId 0
  have hmore : ∀ {s : State}, s.sent < 3 → More c s := by
    intro s hs q hq
    have hquota : c.quota = some 3 := by decide
    obtain rfl := Option.some.inj (hquota.symm.trans hq)
    exact hs
  -- The first message is sent, the write side waits, and the sender is dropped.
  let first := sentNext c (initial c 0)
  have hfirst : Reaches (Unaided c) (initial c 0) (parked c first) :=
    (reaches_sentNext (atTop_initial c 0) (hmore (by decide)) rfl (by decide)).trans
      (reaches_parked ⟨rfl, rfl, rfl, rfl⟩ (hmore (by decide)))
  let dropped : State := { parked c first with stopDropped := true }
  have hbound := (h (parked c first) (reaches_of_unaided hfirst)).2 ⟨Or.inr rfl, rfl⟩
  -- Its acknowledgement comes, and the permit wins.
  let top : State := { completed c dropped id 0 with phase := .draining .top }
  have hcompleted : Reaches (Served c) dropped (parked c top) :=
    reaches_completed ⟨rfl, rfl⟩ (Finmap.lookup_insert _) (Or.inl rfl)
  let second := sentNext c top
  have hsecond : Reaches (Unaided c) (parked c top) second :=
    (reaches_entering_of_parked rfl rfl (by decide)).trans (reaches_sentNext_of_entering c top)
  -- The next acknowledgement comes before the write side asks for its permit.
  let again := completed c second (nextId id) 0
  have hagain : Reaches (Served c) second again :=
    reaches_completed ⟨rfl, rfl⟩ (Finmap.lookup_insert _) (Or.inl rfl)
  have hthird : Reaches (Unaided c) again (sentNext c again) :=
    reaches_sentNext ⟨rfl, rfl, rfl, rfl⟩ (hmore (by decide)) rfl (by decide)
  have hreach : Reaches (Step c) dropped (sentNext c again) :=
    (reaches_of_served hcompleted).trans ((reaches_of_unaided hsecond).trans
      ((reaches_of_served hagain).trans (reaches_of_unaided hthird)))
  exact absurd (hbound _ hreach) (by decide)

end Publisher

end Bench

end PulsemqCli
