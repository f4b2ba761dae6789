import PulsemqCli.Bench.Publisher.Quota
import PulsemqCli.Bench.Readiness
import PulsemqCli.Bench.Report
import PulsemqCli.Library.Shares
import Mathlib.Algebra.Order.BigOperators.Group.Finset

/-!
# What a count-limited run publishes

`quota_for` shares the count out among the publishers. `run` starts the publisher `index` with
`index as u32`, and the publisher asks for the quota of that number: past 2^32 publishers the
numbers come round, and one publisher works with the quota of another.

The arithmetic is that of any division into nearly equal parts, and comes from the library on
shares: the first publishers get one more, and the sum is the total. What there is to show of the
run is that a publisher writes at most its share, always, and all of it, if nobody stops the run and
it returns success.

For the second half the run has to be known to be uninterrupted, and not only up to now. `Unhurried`
says that as long as the publishers are running the stop signal is not raised; a step that would
raise it is an interruption, or the one of `run` itself after it has joined them. So what a
publisher is left with when it returns is `Spent`, from the module on its quota.

A publisher's number is its index modulo 2^32. Beyond this many publishers some share is used twice,
which does no harm exactly if all shares are the same.
-/

namespace PulsemqCli

namespace Bench

open Shares

/-- The count of a count-limited run. -/
def Config.limit (config : Config) : Option ℕ :=
  match config.stop with
  | .count total | .countWithin total _ => some total
  | .duration _ => none

/-- Each publisher's quota is its share of the count. -/
theorem quotaFor_eq_share {config : Config} {n : ℕ} (h : config.limit = some n) (i : ℕ) :
    config.quotaFor i = some (share n config.publishers i) := by
  unfold Config.limit at h
  unfold Config.quotaFor
  split at h
  · cases h
    simp only [*, share]
  · cases h
    simp only [*, share]
  · cases h

namespace Run

open Transition

variable {r : Setting} {s s' : State r} {n : ℕ}

/-! ### The property -/

/-- No publisher writes more PUBLISHes than its quota. -/
def WithinShares (r : Setting) : Prop :=
  Always Step (initial r) fun s ↦ ∀ (i : Fin r.config.publishers) q,
    r.config.quotaFor i = some q → (s.publishers i).count Publisher.publishes ≤ q

/-- All publishers together write no more than `n`. -/
def WithinTotal (r : Setting) (n : ℕ) : Prop :=
  Always Step (initial r) fun s ↦ s.total Publisher.publishes ≤ n

/-- A step other than Ctrl-C or the run's deadline: no stop is requested. -/
def UninterruptedStep : State r → State r → Prop :=
  AllowedStep fun _ a ↦ a ≠ .interrupt

/-- Every publisher returned success. -/
def AllSucceeded (s : State r) : Prop :=
  ∀ i, ∃ c p samples, s.publishers i = .running c p ∧ p.phase = .returned (.ok samples)

/-- Where no stop is requested and every publisher succeeds they have written `n`. -/
def ReachesTotal (r : Setting) (n : ℕ) : Prop :=
  Always UninterruptedStep (initial r) fun s ↦ AllSucceeded s →
    s.total Publisher.publishes = n

/-! ### The tasks

A task's number and quota are set when it is spawned and do not change. Everything else about it is
that it is a run of a publisher. -/

/-- A publisher works with the quota of its number. -/
def Numbered (r : Setting) (i : ℕ) (c : Publisher.Setting) : Prop :=
  c.quota = r.config.quotaFor (UInt32.ofNat i).toNat

/-- The task is metered by the quota of its number. -/
def PublisherTask.Metered (r : Setting) (i : ℕ) : PublisherTask → Prop
  | .running c p => Numbered r i c ∧ Publisher.Metered c p
  | _ => True

/-- A publisher is metered from its spawning on. -/
theorem PublisherTask.Metered.change {t t' : PublisherTask} {i : ℕ} (h : t.Metered r i)
    (hchange : Change s i t t') : t'.Metered r i := by
  cases hchange with
  | stays => exact h
  | spawned | refused => trivial
  | connected => exact ⟨rfl, Publisher.metered_initial _ _ _⟩
  | runs hstep => exact ⟨h.1, h.2.move (Publisher.move_of_step hstep)⟩
  | panics hpanic => exact ⟨h.1, h.2.panic hpanic⟩

/-- All publishers of a run, at every moment. -/
theorem always_metered (r : Setting) :
    Always Step (initial r) fun s ↦ ∀ i, (s.publishers i).Metered r i :=
  always_of_invariant (fun _ ↦ trivial)
    fun _ _ h hstep i ↦ (h i).change (change_of_move (move_of_step hstep) i)

/-- A publisher writes at most the share of its number. -/
theorem count_le_share (hlimit : r.config.limit = some n)
    (hs : Reaches Step (initial r) s) (i : Fin r.config.publishers) :
    (s.publishers i).count Publisher.publishes ≤ share n r.config.publishers (i % 2 ^ 32) := by
  have hi := always_metered r s hs i
  cases htask : s.publishers i with
  | running c p =>
    rw [htask] at hi
    have hquota : c.quota = some (share n r.config.publishers (i % 2 ^ 32)) := by
      rw [hi.1, quotaFor_eq_share hlimit, UInt32.toNat_ofNat']
    exact hi.2.publishes_le hquota
  | _ => exact Nat.zero_le _

/-! ### A run that nobody stops

The drain window begins when the publishers are joined, so raising the stop signal after it does not
interrupt one. A run with a duration ends by an interruption, if the publishers are still at work.
-/

/-- The publishers are not joined yet. -/
def Main.IsEarly : Main → Prop
  | .settling _ | .publishing => True
  | _ => False

/-- What holds of the tasks of a run that nobody stops: no publisher is stopped before the run is,
and each leaves its send loop with the quota spent. -/
structure Unhurried (s : State r) : Prop where
  stop : s.main.IsEarly → s.stop = false
  tasks : ∀ i c p, s.publishers i = .running c p →
    (p.stop = true → s.stop = true) ∧ p.stopDropped = false ∧ Publisher.Spent c p

/-- The stop signal is raised by an interruption, or with the publishers joined. -/
theorem stop_of_step {a : Act r} (h : step s a = some s') (ha : a ≠ .interrupt) :
    s'.stop = s.stop ∨ s'.main = .joining := by
  cases a with
  | interrupt => exact absurd rfl ha
  | tick =>
    cases h
    exact Or.inl rfl
  | drain =>
    simp only [step] at h
    repeat' split at h
    all_goals cases h
    exact Or.inr rfl
  | settle | joinPublishers | joinSubscribers =>
    simp only [step] at h
    repeat' split at h
    all_goals cases h
    exact Or.inl rfl
  | subscriber | publisher =>
    obtain ⟨t, -, rfl⟩ := Option.map_eq_some_iff.1 h
    exact Or.inl rfl

/-- A run does not go back to its early stages. -/
theorem isEarly_of_move (hm : Move s s') (h : s'.main.IsEarly) : s.main.IsEarly := by
  cases hm with
  | settle hmain =>
    rw [hmain]
    trivial
  | joinPublishers | drain | joinSubscribers => exact h.elim
  | _ => exact h

/-- Past these stages the publishers have ended. -/
theorem PublishersEnded.of_joined (h : Joined s) (hmain : ¬s.main.IsEarly) : PublishersEnded s := by
  refine h.publishers (fun wake hsettling ↦ hmain ?_) fun hpublishing ↦ hmain ?_
  · rw [hsettling]
    trivial
  · rw [hpublishing]
    trivial

/-- What a publisher does itself stops nobody. -/
theorem served_of_own {b : Publisher.Act} (h : ofRun b = false) : b.Served := by
  cases b with
  | raiseStop | dropStop => exact Bool.noConfusion h
  | _ => trivial

/-- **A run that nobody stops stays unhurried.** -/
theorem Unhurried.step (h : Unhurried s) (hjoined : Joined s) (hstep : UninterruptedStep s s') :
    Unhurried s' := by
  obtain ⟨a, ha, hs'⟩ := hstep
  constructor
  · intro hmain
    rcases stop_of_step hs' ha with hstop | hjoining
    · exact hstop.trans (h.stop (isEarly_of_move (move_of_step ⟨a, hs'⟩) hmain))
    · rw [hjoining] at hmain
      exact hmain.elim
  · intro i c p' hp'
    cases passage_of_step hs' i with
    | rests nanos stop _ raised htask =>
      cases hbefore : s.publishers i with
      | running c₀ p =>
        rw [htask, hbefore] at hp'
        cases hp'
        obtain ⟨hraised, hdropped, hspent⟩ := h.tasks i c p hbefore
        refine ⟨fun hp ↦ ?_, hdropped, hspent.leaving, hspent.returned⟩
        rw [raised]
        rcases Bool.or_eq_true_iff.1 hp with hstop | hstop
        · rw [hstop, Bool.true_or]
        · rw [hraised hstop, Bool.or_true]
      | _ =>
        rw [htask, hbefore] at hp'
        cases hp'
    | spawned _ _ htask | refused _ _ _ htask =>
      rw [htask] at hp'
      cases hp'
    | connected _ _ hstop htask =>
      rw [htask] at hp'
      cases hp'
      exact ⟨fun hraised ↦ hstop.trans hraised, rfl, Publisher.spent_initial _ _ _⟩
    | @runs c₀ p p'' b _ hown _ hstop hbefore hruns htask =>
      rw [htask] at hp'
      cases hp'
      obtain ⟨hraised, hdropped, hspent⟩ := h.tasks i c p hbefore
      obtain ⟨hsame, hsame'⟩ := Publisher.sameStop_of_served hruns (served_of_own hown)
      have hm := Publisher.move_of_step ⟨b, hruns⟩
      refine ⟨fun hp ↦ ?_, hsame'.trans hdropped, hspent.move hm ?_⟩
      · exact hstop.trans (hraised (hsame.symm.trans hp))
      · by_cases hmain : s.main.IsEarly
        · refine Or.inl ⟨Bool.eq_false_iff.2 fun hp ↦ ?_, hdropped⟩
          exact Bool.false_ne_true ((h.stop hmain).symm.trans (hraised hp))
        · have hended := PublishersEnded.of_joined hjoined hmain i
          rw [hbefore] at hended
          rcases PublisherTask.isEnded_iff.1 hended with ⟨e, he⟩ | ⟨_, _, result, heq, hphase⟩
          · cases he
          · cases heq
            exact Or.inr ⟨result, hphase⟩
    | panics _ _ hstop hbefore hpanic htask =>
      rw [htask] at hp'
      cases hp'
      obtain ⟨hraised, hdropped, -⟩ := h.tasks i c _ hbefore
      obtain ⟨-, permits, rfl⟩ := Publisher.panic_eq hpanic
      exact ⟨fun hp ↦ hstop.trans (hraised hp), hdropped, fun hleaving ↦ hleaving.elim,
        fun _ hphase ↦ by cases hphase⟩

/-- A run that nobody stops, at every moment. -/
theorem always_unhurried (r : Setting) : Always UninterruptedStep (initial r) Unhurried := by
  have hinit : Unhurried (initial r) := ⟨fun _ ↦ rfl, fun _ _ _ h ↦ by cases h⟩
  intro s hs
  induction hs with
  | refl => exact hinit
  | tail hs hstep ih => exact ih.step (always_joined r _ (reaches_of_allowed hs)) hstep

/-- In a run that nobody stops a publisher that succeeded has written its quota. -/
theorem share_le_count (hlimit : r.config.limit = some n)
    (hs : Reaches UninterruptedStep (initial r) s) (hsucceeded : AllSucceeded s)
    (i : Fin r.config.publishers) :
    share n r.config.publishers (i % 2 ^ 32) ≤ (s.publishers i).count Publisher.publishes := by
  obtain ⟨c, p, samples, hp, hphase⟩ := hsucceeded i
  obtain ⟨-, -, hspent⟩ := (always_unhurried r s hs).tasks i c p hp
  have hmetered := always_metered r s (reaches_of_allowed hs) i
  rw [hp] at hmetered ⊢
  obtain ⟨hnumbered, hmetered⟩ := hmetered
  have hquota : c.quota = some (share n r.config.publishers (i % 2 ^ 32)) := by
    rw [hnumbered, quotaFor_eq_share hlimit, UInt32.toNat_ofNat']
  have hwritten := hmetered.written
  rw [hphase] at hwritten
  exact (hspent.returned samples hphase _ hquota).trans_eq hwritten.symm

/-! ### The totals -/

/-- A counter of the report is the sum of the publishers' counters. -/
theorem total_eq_sum (s : State r) (counter : Publisher.State → ℕ) :
    s.total counter = ∑ i, (s.publishers i).count counter :=
  List.sum_ofFn

/-- A publisher's number gives it its own share, where no number gives more. -/
theorem share_mod_eq {p w : ℕ} (h : ∀ i < p, share n p (i % w) ≤ share n p i) {i : ℕ}
    (hi : i < p) : share n p (i % w) = share n p i :=
  (h i hi).antisymm (share_antitone n p (Nat.mod_le i w))

/-- A publisher can write all of the share of its number. -/
theorem can_write_share (hlimit : r.config.limit = some n) (i : Fin r.config.publishers) :
    Can Step (initial r) fun s ↦
      (s.publishers i).count Publisher.publishes = share n r.config.publishers (i % 2 ^ 32) := by
  let c := r.publisher i none (spawned r).clock
  have hquota : c.quota = some (share n r.config.publishers (i % 2 ^ 32)) := by
    rw [Publisher.Setting.quota, show c.config = r.config from rfl, quotaFor_eq_share hlimit,
      show c.index = UInt32.ofNat i from rfl, UInt32.toNat_ofNat']
  obtain ⟨p, hp, htop, -, -, hsent⟩ := Publisher.reaches_sent (spawned r).clock
    (share n r.config.publishers (i % 2 ^ 32)) fun q hq ↦
      (Option.some.inj (hquota.symm.trans hq)).le
  obtain ⟨t, ht, hti, -⟩ := reaches_of_connecting (s := spawned r) (i := i) rfl rfl hp
  have hreaches : Reaches Step (initial r) t :=
    reaches_of_allowed ((reaches_spawned r).trans ht)
  have hwritten := (hti ▸ always_metered r t hreaches i).2.written
  rw [htop.phase, hsent] at hwritten
  refine ⟨t, hreaches, ?_⟩
  show (t.publishers i).count Publisher.publishes = _
  rw [hti]
  exact hwritten

/-- **A count-limited run publishes exactly its count** if the publishers' numbers fit 32 bits or
the count is divided evenly among them, and otherwise a publisher can exceed its quota. -/
theorem quota_iff (hpublishers : 0 < r.config.publishers) (hlimit : r.config.limit = some n) :
    (∃ quota : ℕ → ℕ, (∀ i, r.config.quotaFor i = some (quota i)) ∧
      ∑ i : Fin r.config.publishers, quota i = n ∧ Antitone quota ∧
      ∀ i j, quota i ≤ quota j + 1) ∧
    (WithinShares r ∧ WithinTotal r n ∧ ReachesTotal r n ↔
      r.config.publishers ≤ 2 ^ 32 ∨ n % r.config.publishers = 0) := by
  refine ⟨⟨share n r.config.publishers, quotaFor_eq_share hlimit, sum_share hpublishers,
    share_antitone _ _, share_le_succ _ _⟩, ?_⟩
  rw [← within_iff (Nat.two_pow_pos 32)]
  constructor
  · rintro ⟨hwithin, -, -⟩ i hi
    obtain ⟨s, hs, hcount⟩ := can_write_share hlimit ⟨i, hi⟩
    have hle := hwithin s hs ⟨i, hi⟩ _ (quotaFor_eq_share hlimit i)
    rwa [hcount] at hle
  · intro hshares
    have hcount : ∀ s, Reaches Step (initial r) s → ∀ i : Fin r.config.publishers,
        (s.publishers i).count Publisher.publishes ≤ share n r.config.publishers i :=
      fun s hs i ↦ (count_le_share hlimit hs i).trans (hshares i i.isLt)
    refine ⟨fun s hs i q hq ↦ ?_, fun s hs ↦ ?_, fun s hs hsucceeded ↦ ?_⟩
    · obtain rfl := Option.some.inj ((quotaFor_eq_share hlimit i).symm.trans hq)
      exact hcount s hs i
    · calc s.total Publisher.publishes
          = ∑ i, (s.publishers i).count Publisher.publishes := total_eq_sum s _
        _ ≤ ∑ i : Fin r.config.publishers, share n r.config.publishers i :=
            Finset.sum_le_sum fun i _ ↦ hcount s hs i
        _ = n := sum_share hpublishers
    · have hexact : ∀ i, (s.publishers i).count Publisher.publishes =
          share n r.config.publishers i := fun i ↦
        (hcount s (reaches_of_allowed hs) i).antisymm
          ((share_mod_eq hshares i.isLt).symm.trans_le (share_le_count hlimit hs hsucceeded i))
      calc s.total Publisher.publishes
          = ∑ i, (s.publishers i).count Publisher.publishes := total_eq_sum s _
        _ = ∑ i : Fin r.config.publishers, share n r.config.publishers i :=
            Finset.sum_congr rfl fun i _ ↦ hexact i
        _ = n := sum_share hpublishers

/-- Three publishers of ten messages. -/
def trio : Setting :=
  { pair with config := { pair.config with publishers := 3 } }

/-- The first of them sends four messages, and the others three each. -/
theorem quota_iff_trio :
    [0, 1, 2].map trio.config.quotaFor = [some 4, some 3, some 3] ∧
      WithinShares trio ∧ WithinTotal trio 10 ∧ ReachesTotal trio 10 :=
  ⟨by decide, (quota_iff (by decide) rfl).2.2 (Or.inl (by decide))⟩

/-- One message for more publishers than there are numbers. -/
def crowd : Setting :=
  { pair with config := { pair.config with publishers := 2 ^ 32 + 1, stop := .count 1 } }

/-- The last publisher works with the first one's quota, and sends the message too. -/
theorem not_withinShares_crowd :
    ¬(WithinShares crowd ∧ WithinTotal crowd 1 ∧ ReachesTotal crowd 1) := by
  rintro ⟨hwithin, -, -⟩
  let last : Fin crowd.config.publishers := ⟨2 ^ 32, by decide⟩
  obtain ⟨s, hs, hcount⟩ := can_write_share (show crowd.config.limit = some 1 from rfl) last
  have hle := hwithin s hs last 0 (by decide)
  rw [hcount] at hle
  exact absurd hle (by decide)

end Run

end Bench

end PulsemqCli
