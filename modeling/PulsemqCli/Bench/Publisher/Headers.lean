import PulsemqCli.Bench.Publisher.Window

/-!
# The headers a publisher writes

Every PUBLISH a publisher writes begins with a measurement header, whatever payload size is
configured: `payload::build` makes room for it. The header holds the time since the baseline, as a
`u64`, at which the message was built; so by the time anyone can read it, that time is past.

The two fields that a subscriber uses are covered: the time is what `DatedBy` is about, and the
publisher's number and the sequence number are in the message by definition. A message keeps its
payload from the moment it is built until it is written, and afterwards, so one invariant serves
both the message in hand and the packets that were written.
-/

namespace PulsemqCli

namespace Bench

namespace Publisher

open Protocol

variable {c : Setting} {s s' : State} {clock clock' : ℕ} {p : Publish}

/-- The payload has a header, and its time is not after `clock`. -/
def DatedBy (c : Setting) (clock : ℕ) (p : Publish) : Prop :=
  ∃ header, Payload.decode p.payload = some header ∧
    c.baseline + header.elapsedNs.toNat ≤ clock

theorem DatedBy.mono (h : DatedBy c clock p) (hle : clock ≤ clock') : DatedBy c clock' p := by
  obtain ⟨header, hdecode, hdated⟩ := h
  exact ⟨header, hdecode, hdated.trans hle⟩

/-- **A message has a header from the moment it is built**, at any payload size. -/
theorem datedBy_message (h : c.baseline ≤ s.clock) (id : Option PacketId) :
    DatedBy c s.clock (message c s id) := by
  refine ⟨_, Payload.decode_build _ _, ?_⟩
  have hwraps : (UInt64.ofNat (s.clock - c.baseline)).toNat ≤ s.clock - c.baseline := by
    rw [UInt64.toNat_ofNat']
    exact Nat.mod_le _ _
  show c.baseline + (UInt64.ofNat (s.clock - c.baseline)).toNat ≤ s.clock
  omega

/-- The message that is built and not written yet. -/
def Phase.unwritten : Phase → Option Publish
  | .assigned p _ | .writing p => some p
  | _ => none

/-- What the write side has built is dated. -/
structure Dated (c : Setting) (s : State) : Prop where
  baseline : c.baseline ≤ s.clock
  unwritten : ∀ p, s.phase.unwritten = some p → DatedBy c s.clock p
  written : ∀ p, .publish p ∈ s.written → DatedBy c s.clock p

theorem dated_initial (h : c.baseline ≤ clock) (stop : Bool) :
    Dated c { initial c clock with stop := stop } where
  baseline := h
  unwritten _ hp := by cases hp
  written _ hp := by cases hp

/-- Time passes only by itself. -/
theorem clock_of_step {a : Act} (h : step c s a = some s') (ha : ∀ nanos, a ≠ .tick nanos) :
    s'.clock = s.clock := by
  cases a with
  | tick nanos => exact absurd rfl (ha nanos)
  | raiseStop | dropStop =>
    cases h
    rfl
  | _ => exact (sameSurroundings_of_step h ha Act.noConfusion Act.noConfusion).clock

theorem clock_le_of_step {a : Act} (h : step c s a = some s') : s.clock ≤ s'.clock := by
  cases a with
  | tick nanos =>
    cases h
    exact Nat.le_add_right _ _
  | _ => exact (clock_of_step h fun _ ↦ Act.noConfusion).ge

/-- A message that is to be written was so before, or is built by the step. -/
theorem unwritten_of_move (hm : Move c s s') (h : s'.phase.unwritten = some p) :
    s.phase.unwritten = some p ∨ s'.clock = s.clock ∧ ∃ id, p = message c s id := by
  cases hm with
  | tick | deliver | raiseStop | dropStop | readEof | readError | complete | completeUnknown
  | freeRefused | free | close => exact Or.inl h
  | read =>
    rw [onPacket_phase] at h
    exact Or.inl h
  | assign | assignNone => exact Or.inr ⟨rfl, _, (Option.some.inj h).symm⟩
  | insert hphase | insertNone hphase =>
    rw [hphase]
    exact Or.inl h
  | @drained d | @releaseIgnored d => cases d <;> cases h
  | quotaReached | stopSeen | haltPacing | acquireClosed | haltAcquiring =>
    rcases leave_phase _ with hl | ⟨_, hl⟩ <;> rw [hl] at h <;> cases h
  | _ => cases h

/-- **What a publisher builds stays dated.** -/
theorem Dated.step {a : Act} (h : Dated c s) (ha : step c s a = some s') : Dated c s' := by
  have hclock := clock_le_of_step ha
  have hm := move_of_step ⟨a, ha⟩
  refine ⟨h.baseline.trans hclock, fun p hp ↦ ?_, fun p hp ↦ ?_⟩
  · rcases unwritten_of_move hm hp with hp | ⟨hsame, id, rfl⟩
    · exact (h.unwritten p hp).mono hclock
    · rw [hsame]
      exact datedBy_message h.baseline id
  · rcases written_of_move hm with hwritten | ⟨x, hwritten, hx⟩
    · rw [hwritten] at hp
      exact (h.written p hp).mono hclock
    · rw [hwritten, List.mem_append, List.mem_singleton] at hp
      rcases hp with hp | hp
      · exact (h.written p hp).mono hclock
      · refine (h.unwritten p ?_).mono hclock
        rw [hx p hp.symm]
        rfl

/-- A panic writes nothing. -/
theorem Dated.panic {e : String} (h : Dated c s) (hp : Publisher.panic c e s = some s') :
    Dated c s' := by
  obtain ⟨-, permits, rfl⟩ := panic_eq hp
  exact ⟨h.baseline, fun _ hunwritten ↦ (by cases hunwritten), h.written⟩

end Publisher

end Bench

end PulsemqCli
