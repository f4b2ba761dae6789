import PulsemqCli.Library.Transition
import Mathlib.Data.List.Sort

/-!
# Processes that wait with a timer

A process waits for arrivals, each with the time it comes. An arrival it hears restarts the wait;
if the wait lasts as long as the timer allows, the timer runs out instead, and at a tie the
arrival wins. Handling an arrival or an expiry takes no time, ends the process or moves its state
on, and either writes something or does not.

The question is how long such a process can go without writing. `within_iff_covered` answers it:
the gap never exceeds a bound exactly if every wait is covered, by its timer or by an arrival that
makes the process write or end.

What is not covered can be seen to exceed the bound by a single continuation: from there on no
arrival comes, or only those that come in silence, until the timer runs out too late. This is why
the condition is exact, and why it can be checked wait by wait, with no regard for what happened
before the last write other than when it was (`Moment`).

A process without a timer is one whose timer never runs out. All its waits have to be covered by
arrivals.
-/

namespace Watchdog

open Transition

variable {ς ι : Type}

/-- A process: how it handles an arrival and an expiry, returning `none` where it ends and
otherwise the next state and whether it wrote. -/
structure Process (ς ι : Type) where
  handle : ς → ι → Option (ς × Bool)
  /-- Whether an arrival restarts the wait. -/
  restarts : ι → Bool
  expire : ς → Option (ς × Bool)
  /-- How long a wait may last, if there is a limit. -/
  timer : Option ℕ

/-- A moment in a run: the time, the times of the last write and of the beginning of the wait, the
process's state and the arrivals still to come. -/
structure Moment (ς ι : Type) where
  now : ℕ
  written : ℕ
  since : ℕ
  state : ς
  arrivals : List (ℕ × ι)

/-- What an arrival handled at time `now` makes of a moment. -/
def Moment.next (m : Moment ς ι) (restarts : Bool) (state : ς) (wrote : Bool)
    (arrivals : List (ℕ × ι)) : Moment ς ι where
  now := m.now
  written := if wrote then m.now else m.written
  since := if restarts then m.now else m.since
  state := state
  arrivals := arrivals

variable (P : Process ς ι)

/-- The steps of a run. -/
inductive Step : Moment ς ι → Moment ς ι → Prop
  /-- Time passes, not past the next arrival or the end of the wait. -/
  | wait (m : Moment ς ι) (t : ℕ) : m.now ≤ t → (∀ a ∈ m.arrivals, t ≤ a.1) →
      (∀ d ∈ P.timer, t ≤ m.since + d) → Step m { m with now := t }
  /-- The next arrival comes. -/
  | arrive (m : Moment ς ι) (x : ι) (rest : List (ℕ × ι)) (s : ς) (wrote : Bool) :
      m.arrivals = (m.now, x) :: rest → P.handle m.state x = some (s, wrote) →
      Step m (m.next (P.restarts x) s wrote rest)
  /-- The wait lasted as long as it may. -/
  | expire (m : Moment ς ι) (d : ℕ) (s : ς) (wrote : Bool) : P.timer = some d →
      m.now = m.since + d → (∀ a ∈ m.arrivals, m.now < a.1) →
      P.expire m.state = some (s, wrote) → Step m (m.next true s wrote m.arrivals)

/-- The state after an arrival that the process handles without writing or ending. -/
def Process.silent (s : ς) (x : ι) : Option ς :=
  match P.handle s x with
  | some (s', false) => some s'
  | _ => none

/-- The time of the first arrival that is not passed over in silence. -/
def firstAnswer (silent : ς → ι → Option ς) : ς → List (ℕ × ι) → Option ℕ
  | _, [] => none
  | s, (t, x) :: rest =>
    match silent s x with
    | some s' => firstAnswer silent s' rest
    | none => some t

/-- Within a bound `k` of the last write, the wait ends by its timer, or an arrival comes that
makes the process write or end. -/
def Covered (k : ℕ) (m : Moment ς ι) : Prop :=
  (∃ d ∈ P.timer, m.since + d ≤ m.written + k) ∨
    ∃ t ∈ firstAnswer P.silent m.state m.arrivals, t ≤ m.written + k

/-- What holds of every moment of a run: the arrivals are in order and still to come, and the wait
began in the past and does not last too long. -/
structure Timely (m : Moment ς ι) : Prop where
  sorted : m.arrivals.Pairwise fun a b ↦ a.1 ≤ b.1
  ahead : ∀ a ∈ m.arrivals, m.now ≤ a.1
  begun : m.since ≤ m.now
  lasting : ∀ d ∈ P.timer, m.now ≤ m.since + d

variable {P} {m m' : Moment ς ι}

/-- A step keeps a moment timely. -/
theorem Timely.step (h : Timely P m) (hstep : Step P m m') : Timely P m' := by
  cases hstep with
  | wait t hnow hahead hlasting =>
    exact ⟨h.sorted, hahead, h.begun.trans hnow, hlasting⟩
  | arrive x rest s wrote harr hhandle =>
    have hsorted := h.sorted
    have hahead := h.ahead
    rw [harr] at hsorted hahead
    refine ⟨(List.pairwise_cons.1 hsorted).2, fun a ha ↦ hahead a (List.mem_cons_of_mem _ ha),
      ?_, fun d hd ↦ ?_⟩
    · show (if P.restarts x then m.now else m.since) ≤ m.now
      split
      · exact le_rfl
      · exact h.begun
    · show m.now ≤ (if P.restarts x then m.now else m.since) + d
      split
      · exact Nat.le_add_right _ _
      · exact h.lasting d hd
  | expire d s wrote htimer hnow hahead hexpire =>
    exact ⟨h.sorted, h.ahead, le_rfl, fun _ _ ↦ Nat.le_add_right _ _⟩

/-- The first answer is one of the arrivals. -/
theorem mem_of_firstAnswer {silent : ς → ι → Option ς} {s : ς} {arrivals : List (ℕ × ι)} {t : ℕ}
    (h : firstAnswer silent s arrivals = some t) : ∃ a ∈ arrivals, a.1 = t := by
  induction arrivals generalizing s with
  | nil => cases h
  | cons a rest ih =>
    obtain ⟨t', x⟩ := a
    rw [firstAnswer] at h
    split at h
    · obtain ⟨a, ha, rfl⟩ := ih h
      exact ⟨a, List.mem_cons_of_mem _ ha, rfl⟩
    · exact ⟨(t', x), List.mem_cons_self, Option.some.inj h⟩

/-- The first answer depends on no more of the state than the silence does. -/
theorem firstAnswer_map {τ : Type} {silent : ς → ι → Option ς} {silent' : τ → ι → Option τ}
    (f : ς → τ) (h : ∀ s x, (silent s x).map f = silent' (f s) x) (s : ς)
    (arrivals : List (ℕ × ι)) :
    firstAnswer silent s arrivals = firstAnswer silent' (f s) arrivals := by
  induction arrivals generalizing s with
  | nil => rfl
  | cons a rest ih =>
    obtain ⟨t, x⟩ := a
    rw [firstAnswer, firstAnswer, ← h s x]
    rcases silent s x with - | s'
    · rfl
    · exact ih s'

theorem silent_eq_some {s s' : ς} {x : ι} :
    P.silent s x = some s' ↔ P.handle s x = some (s', false) := by
  unfold Process.silent
  split
  next s'' hs => rw [hs]; simp
  next hne =>
    refine ⟨nofun, fun hs ↦ absurd hs (hne s')⟩

/-- A covered moment is within the bound. -/
theorem Covered.within {k : ℕ} (hm : Timely P m) (h : Covered P k m) : m.now ≤ m.written + k := by
  rcases h with ⟨d, hd, hle⟩ | ⟨t, ht, hle⟩
  · exact (hm.lasting d hd).trans hle
  · obtain ⟨a, ha, rfl⟩ := mem_of_firstAnswer ht
    exact (hm.ahead a ha).trans hle

/-- Where no arrival comes within the bound and no timer runs out, the process can let the bound go
by. -/
theorem can_exceed_of_forall_lt {k : ℕ} (hnow : m.now ≤ m.written + k)
    (hnext : ∀ a ∈ m.arrivals, m.written + k < a.1)
    (hlimit : ∀ d ∈ P.timer, m.written + k < m.since + d) :
    Can (Step P) m fun m' ↦ ¬m'.now ≤ m'.written + k := by
  have hwait : Step P m { m with now := m.written + k + 1 } :=
    .wait m (m.written + k + 1) (by omega) hnext hlimit
  refine .of_step hwait (.here ?_)
  show ¬m.written + k + 1 ≤ m.written + k
  omega

/-- From a moment that is not covered, the process can let the bound go by. -/
theorem can_exceed {k : ℕ} (hm : Timely P m) (h : ¬Covered P k m) :
    Can (Step P) m fun m' ↦ ¬m'.now ≤ m'.written + k := by
  obtain ⟨now, written, since, s, arrivals⟩ := m
  -- On the arrivals still to come: each one within the bound goes unanswered.
  induction arrivals generalizing now since s with
  | nil =>
    obtain ⟨hlimit, -⟩ := not_or.1 h
    by_cases hnow : now ≤ written + k
    · refine can_exceed_of_forall_lt hnow (fun _ ha ↦ nomatch ha) fun d hd ↦ ?_
      exact not_le.1 fun hle ↦ hlimit ⟨d, hd, hle⟩
    · exact .here hnow
  | cons a rest ih =>
    obtain ⟨t, x⟩ := a
    obtain ⟨hlimit, hanswer⟩ := not_or.1 h
    have hlimit' : ∀ d ∈ P.timer, written + k < since + d := fun d hd ↦
      not_le.1 fun hle ↦ hlimit ⟨d, hd, hle⟩
    by_cases hnow : now ≤ written + k
    swap
    · exact .here hnow
    have hahead : now ≤ t := hm.ahead (t, x) List.mem_cons_self
    have hfirst : ∀ b ∈ (t, x) :: rest, t ≤ b.1 := by
      intro b hb
      rcases List.mem_cons.1 hb with rfl | hb
      · exact le_rfl
      · exact (List.pairwise_cons.1 hm.sorted).1 b hb
    by_cases ht : t ≤ written + k
    swap
    · refine can_exceed_of_forall_lt hnow (fun b hb ↦ ?_) hlimit'
      have hb' : t ≤ b.1 := hfirst b hb
      show written + k < b.1
      omega
    -- The arrival is not the first answer, which would be within the bound.
    have hsilent : P.silent s x ≠ none := by
      intro hnone
      refine hanswer ⟨t, ?_, ht⟩
      show firstAnswer P.silent s ((t, x) :: rest) = some t
      rw [firstAnswer, hnone]
    obtain ⟨s', hs'⟩ := Option.ne_none_iff_exists'.1 hsilent
    let m₁ : Moment ς ι := ⟨t, written, since, s, (t, x) :: rest⟩
    have hwait : Step P ⟨now, written, since, s, (t, x) :: rest⟩ m₁ := by
      refine .wait _ t hahead hfirst fun d hd ↦ ?_
      have := hlimit' d hd
      show t ≤ since + d
      omega
    have harrive : Step P m₁ (m₁.next (P.restarts x) s' false rest) :=
      .arrive m₁ x rest s' false rfl (silent_eq_some.1 hs')
    have hbegun : since ≤ (if P.restarts x then t else since) := by
      split
      · exact (hm.begun).trans hahead
      · exact le_rfl
    refine .of_step hwait (.of_step harrive (ih t (if P.restarts x then t else since) s'
      ((hm.step hwait).step harrive) ?_))
    rintro (⟨d, hd, hle⟩ | ⟨t', ht', hle⟩)
    · have hlt := hlimit' d hd
      have hle' : (if P.restarts x then t else since) + d ≤ written + k := hle
      omega
    · refine hanswer ⟨t', ?_, hle⟩
      show firstAnswer P.silent s ((t, x) :: rest) = some t'
      rw [firstAnswer, hs']
      exact ht'

/-- **A timely process stays within its bound, in every run, exactly if every moment of every run
is covered.** -/
theorem within_iff_covered {k : ℕ} (hm : Timely P m) :
    Always (Step P) m (fun m' ↦ m'.now ≤ m'.written + k) ↔ Always (Step P) m (Covered P k) := by
  have htimely : Always (Step P) m (Timely P) :=
    always_of_invariant hm fun _ _ h hstep ↦ h.step hstep
  constructor
  · intro h m' hm'
    by_contra hnot
    exact not_always_of_can (can_exceed (htimely m' hm') hnot) (h.of_reaches hm')
  · exact fun h m' hm' ↦ (h m' hm').within (htimely m' hm')

end Watchdog
