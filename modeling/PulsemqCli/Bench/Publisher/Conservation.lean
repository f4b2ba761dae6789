import PulsemqCli.Bench.Publisher.Identifiers
import PulsemqCli.Bench.Publisher.Ledger
import PulsemqCli.Bench.Stats

/-!
# The counters of a publisher

While its identifiers do not wrap, each message a publisher has published is acknowledged, refused
or still in flight. The counters say so except for one thing: `complete_ack` tallies a refusal
before it looks whether the identifier is in flight, so an error for an identifier that is not in
flight is tallied too. `conserves_iff` says that this is all.

The balance is kept entry by entry in the ledger. At any moment a message can be on its way between
two of the accounts, in the hands of the write side (written and not counted) or of the ack side
(looked up and not counted), and `Conserved` has a term for each of these. Between two sends and two
packets the terms are zero.

A refusal that finds nothing in flight is a `stray`, and strays are what the refusals exceed the
balance by. So the counters conserve the messages exactly if there is none, and a broker that
conforms sends none.
-/

namespace PulsemqCli

namespace Bench

namespace Publisher

open Protocol Transition

/-- The write side is between two sends. -/
def Phase.BetweenSends : Phase → Prop
  | .permitted | .assigned _ _ | .writing _ | .written _ | .failing _ _ | .returned _ => False
  | _ => True

/-- A refusal of an identifier that is not in flight. -/
def Event.stray : Event → Bool
  | .lookedUp _ code found => code.isError && !found
  | _ => false

/-- The refusals of identifiers that were not in flight. -/
def strays (es : List Event) : ℕ :=
  es.countP Event.stray

/-- A message is found that was acknowledged with success. -/
def Event.succeeds : Event → Bool
  | .lookedUp _ code found => found && !code.isError
  | _ => false

/-! ### The balance of the counters -/

/-- Whether an identifier is assigned to a message that is not counted yet. -/
def Stage.uncounted : Stage → ℕ
  | .assigned _ _ | .entered _ | .written _ | .failed _ => 1
  | _ => 0

/-- Whether that message is in flight. -/
def Stage.inFlight : Stage → ℕ
  | .entered _ | .written _ | .failed _ => 1
  | _ => 0

/-- Whether a refusal is tallied that was not looked up yet. -/
def Work.refusing : Work → ℕ
  | .completing _ code => if code.isError then 1 else 0
  | _ => 0

/-- Whether a success was looked up that is not counted yet. -/
def Work.accepting : Work → ℕ
  | .freeing code => if code.isError then 0 else 1
  | _ => 0

/-- Each message is accounted for. -/
structure Conserved (strays : ℕ) (l : Ledger) : Prop where
  next : l.nextPacketId.toNat = l.sent + l.stage.uncounted
  keys : ∀ id ∈ l.inFlight, id.toNat ≤ l.sent + l.stage.inFlight
  published : l.published = l.sent
  balance : l.published + l.stage.inFlight + l.work.refusing + strays =
    l.acknowledged + l.refused + l.inFlight.keys.card + l.work.accepting
  samples : l.samples ≤ l.acknowledged

/-- **An entry conserves the messages, while the identifiers do not wrap.** -/
theorem Conserved.entry {n : ℕ} {l l' : Ledger} {es : List Event} (h : Conserved n l)
    (hlabelled : l.Labelled) (hentry : Ledger.Entry l es l') (hover : l'.stage ≠ .over)
    (hrange : l'.sent + l'.stage.uncounted ≤ 65535) : Conserved (n + strays es) l' := by
  obtain ⟨hnext, hkeys, hpublished, hbalance, hsamples⟩ := h
  cases hentry with
  | nothing | disconnect | release | dropRelease | ignore | owe =>
    exact ⟨hnext, hkeys, hpublished, hbalance, hsamples⟩
  | giveUp | finish | forfeit | abort => exact absurd rfl hover
  | acquire hstage =>
    rw [hstage] at hnext hkeys hbalance
    exact ⟨hnext, hkeys, hpublished, hbalance, hsamples⟩
  | assign _ hstage =>
    rw [hstage] at hnext hkeys hbalance
    have hnext' : l.nextPacketId.toNat = l.sent + 0 := hnext
    have hrange' : l.sent + 1 ≤ 65535 := hrange
    refine ⟨?_, hkeys, hpublished, hbalance, hsamples⟩
    show (nextId l.nextPacketId).toNat = l.sent + 1
    rw [toNat_nextId (by omega), hnext']
  | @enter p now id hstage hid =>
    rw [hlabelled p now hstage, Option.some.injEq] at hid
    subst hid
    rw [hstage] at hnext hkeys hbalance
    have hnext' : l.nextPacketId.toNat = l.sent + 1 := hnext
    have hfresh : l.nextPacketId ∉ l.inFlight.keys := fun hmem ↦ by
      have hle : l.nextPacketId.toNat ≤ l.sent + 0 := hkeys _ (Finmap.mem_keys.1 hmem)
      omega
    refine ⟨hnext, fun id hid ↦ ?_, hpublished, ?_, hsamples⟩
    · rcases Finmap.mem_insert.1 hid with rfl | hmem
      · exact hnext.le
      · exact (hkeys id hmem).trans (Nat.le_succ _)
    · have hbalance' : l.published + 0 + l.work.refusing + n =
          l.acknowledged + l.refused + l.inFlight.keys.card + l.work.accepting := hbalance
      show l.published + 1 + l.work.refusing + n = l.acknowledged + l.refused +
        (l.inFlight.insert l.nextPacketId now).keys.card + l.work.accepting
      rw [keys_insert, Finset.card_insert_of_notMem hfresh]
      omega
  | write hstage | fail hstage =>
    rw [hstage] at hnext hkeys hbalance
    exact ⟨hnext, hkeys, hpublished, hbalance, hsamples⟩
  | count hstage =>
    rw [hstage] at hnext hkeys hbalance
    refine ⟨hnext, hkeys, congrArg (· + 1) hpublished, ?_, hsamples⟩
    exact hbalance
  -- A refusal is tallied before it is looked up.
  | @hear p id code hwork =>
    rw [hwork] at hbalance
    refine ⟨hnext, hkeys, hpublished, ?_, hsamples⟩
    have hbalance' : l.published + l.stage.inFlight + 0 + n =
      l.acknowledged + l.refused + l.inFlight.keys.card + 0 := hbalance
    show l.published + l.stage.inFlight + (if code.isError then 1 else 0) + n = l.acknowledged +
      (if code.isError then l.refused + 1 else l.refused) + l.inFlight.keys.card + 0
    split <;> omega
  | @find id code hwork hmem =>
    have hmem' := Finmap.mem_keys.2 hmem
    have hpos := Finset.card_pos.2 ⟨id, hmem'⟩
    rw [hwork] at hbalance
    refine ⟨hnext, fun id' hid' ↦ hkeys id' (Finmap.mem_erase.1 hid').2, hpublished, ?_, hsamples⟩
    have hbalance' : l.published + l.stage.inFlight + (if code.isError then 1 else 0) + n =
      l.acknowledged + l.refused + l.inFlight.keys.card + 0 := hbalance
    have hstrays : strays [.lookedUp id code true] = 0 := by simp [strays, Event.stray]
    show l.published + l.stage.inFlight + 0 + (n + strays [.lookedUp id code true]) =
      l.acknowledged + l.refused + (l.inFlight.erase id).keys.card +
        (if code.isError then 0 else 1)
    rw [hstrays, Finmap.keys_erase, Finset.card_erase_of_mem hmem']
    split at hbalance' <;> simp [*] <;> omega
  | @miss id code hwork hmem =>
    rw [hwork] at hbalance
    refine ⟨hnext, hkeys, hpublished, ?_, hsamples⟩
    have hbalance' : l.published + l.stage.inFlight + (if code.isError then 1 else 0) + n =
      l.acknowledged + l.refused + l.inFlight.keys.card + 0 := hbalance
    have hstrays : strays [.lookedUp id code false] = if code.isError then 1 else 0 := by
      rcases hcode : code.isError with - | - <;> simp [strays, Event.stray, hcode]
    show l.published + l.stage.inFlight + 0 + (n + strays [.lookedUp id code false]) =
      l.acknowledged + l.refused + l.inFlight.keys.card + 0
    omega
  | freeRefused hwork hcode =>
    rw [hwork] at hbalance
    refine ⟨hnext, hkeys, hpublished, hbalance.trans ?_, hsamples⟩
    show _ + (if _ then 0 else 1) = _
    rw [if_pos hcode]
    rfl
  | @free code samples hwork hcode hle =>
    rw [hwork] at hbalance
    refine ⟨hnext, hkeys, hpublished, ?_, hle.trans (Nat.succ_le_succ hsamples)⟩
    have hbalance' : l.published + l.stage.inFlight + 0 + n = l.acknowledged + l.refused +
        l.inFlight.keys.card + (if code.isError then 0 else 1) := hbalance
    rw [if_neg (Bool.eq_false_iff.1 hcode)] at hbalance'
    show l.published + l.stage.inFlight + 0 + n =
      l.acknowledged + 1 + l.refused + l.inFlight.keys.card + 0
    omega

/-- An entry does not come back from the end of the run, nor take an identifier back. -/
theorem before_entry {l l' : Ledger} {es : List Event} (hentry : Ledger.Entry l es l')
    (hover : l'.stage ≠ .over) :
    l.stage ≠ .over ∧ l.sent + l.stage.uncounted ≤ l'.sent + l'.stage.uncounted := by
  cases hentry with
  | giveUp | finish | forfeit | abort => exact absurd rfl hover
  | acquire hstage | assign _ hstage | enter hstage | write hstage | fail hstage
  | count hstage =>
    rw [hstage]
    exact ⟨fun h ↦ Stage.noConfusion h, by simp [Stage.uncounted]⟩
  | _ => exact ⟨hover, le_rfl⟩

variable {c : Setting} {clock : ℕ} {s : State} {es : List Event}

/-- The counter counts messages found that were acknowledged with success. -/
theorem acknowledged_le (hqos : c.acknowledged = true) (h : Run c clock es s) :
    s.acknowledged ≤ es.countP Event.succeeds := by
  have hcounted : s.acknowledged + (ledger s).work.accepting ≤ es.countP Event.succeeds := by
    refine Ledger.of_run hqos
      (I := fun es l ↦ l.acknowledged + l.work.accepting ≤ es.countP Event.succeeds) le_rfl ?_ h
    intro es l fs l' hI hentry
    rw [List.countP_append]
    cases hentry with
    | abort | freeRefused =>
      exact (Nat.le_add_right _ _).trans hI
    | hear hwork | @miss _ _ hwork =>
      rw [hwork] at hI
      exact hI.trans (Nat.le_add_right _ _)
    | @find id code hwork =>
      rw [hwork] at hI
      have hI' : l.acknowledged + 0 ≤ es.countP Event.succeeds := hI
      show l.acknowledged + (if code.isError then 0 else 1) ≤
        es.countP Event.succeeds + [Event.lookedUp id code true].countP Event.succeeds
      rcases hcode : code.isError with - | - <;> simp [Event.succeeds, hcode] <;> omega
    | @free code samples hwork hcode =>
      rw [hwork] at hI
      have hI' : l.acknowledged + (if code.isError then 0 else 1) ≤ es.countP Event.succeeds := hI
      rw [if_neg (Bool.eq_false_iff.1 hcode)] at hI'
      exact hI'
    | _ => exact hI.trans (Nat.le_add_right _ _)
  exact (Nat.le_add_right _ _).trans hcounted

/-- The messages are conserved in every run, while the identifiers do not wrap. -/
theorem conserved_of_run (hqos : c.acknowledged = true) (h : Run c clock es s)
    (hover : (ledger s).stage ≠ .over) (hrange : s.sent + (ledger s).stage.uncounted ≤ 65535) :
    Conserved (strays es) (ledger s) := by
  refine (Ledger.of_run hqos (I := fun es l ↦ l.Labelled ∧ (l.stage ≠ .over →
    l.sent + l.stage.uncounted ≤ 65535 → Conserved (strays es) l)) ?_ ?_ h).2 hover hrange
  · refine ⟨fun _ _ h ↦ Stage.noConfusion h, fun _ _ ↦ ⟨rfl, fun id hid ↦ ?_, rfl, ?_, le_rfl⟩⟩
    · exact absurd hid Finmap.notMem_empty
    · show 0 = 0 + 0 + (∅ : Finmap fun _ : PacketId ↦ ℕ).keys.card + 0
      rw [Finmap.keys_empty, Finset.card_empty]
  · rintro es l fs l' ⟨hlabelled, hI⟩ hentry
    refine ⟨hlabelled.entry hentry, fun hover hrange ↦ ?_⟩
    rw [strays, List.countP_append]
    obtain ⟨hover', hle⟩ := before_entry hentry hover
    exact (hI hover' (hle.trans hrange)).entry hlabelled hentry hover hrange

/-- Each message published is counted once: as acknowledged, refused or outstanding. A sample is
of a message acknowledged. -/
def Conserves (s : State) : Prop :=
  s.published = s.acknowledged + refusals (tally s.refused) + s.inFlight.keys.card ∧
    s.samples.length ≤ s.acknowledged

/-- **Between two sends and two packets, the counters conserve the messages exactly if no refusal
was of an identifier that was not in flight.** -/
theorem conserves_iff (hqos : c.acknowledged = true) (h : Run c clock es s)
    (hsends : s.phase.BetweenSends) (hpackets : s.ack.BetweenPackets) (hsent : s.sent ≤ 65535) :
    Conserves s ↔ strays es = 0 := by
  have hstage : (ledger s).stage = .idle := by
    show s.phase.stage = .idle
    cases hphase : s.phase with
    | permitted | assigned | writing | written | failing | returned =>
      rw [hphase] at hsends
      exact hsends.elim
    | _ => rfl
  have hwork : (ledger s).work.refusing = 0 ∧ (ledger s).work.accepting = 0 := by
    show s.ack.work.refusing = 0 ∧ s.ack.work.accepting = 0
    cases hack : s.ack with
    | completing | freeing =>
      rw [hack] at hpackets
      exact hpackets.elim
    | _ => exact ⟨rfl, rfl⟩
  have hconserved := conserved_of_run hqos h (by rw [hstage]; exact fun h ↦ Stage.noConfusion h)
    (by rw [hstage]; exact hsent)
  have hsamples : s.samples.length ≤ s.acknowledged := hconserved.samples
  have hbalance := hconserved.balance
  rw [hstage, hwork.1, hwork.2] at hbalance
  have hbalance' : s.published + 0 + 0 + strays es =
    s.acknowledged + s.refused.length + s.inFlight.keys.card + 0 := hbalance
  rw [Conserves, refusals_tally]
  omega

/-- Three messages are sent; the broker acknowledges the first and refuses the second. -/
def threeSent : List Act :=
  List.replicate 27 .advance ++
  [.deliver (.packet (.puback ⟨1, .success⟩)), .deliver (.packet (.puback ⟨2, .notAuthorized⟩))] ++
  List.replicate 6 .acknowledge

/-- One message is acknowledged, one refused and one outstanding. -/
theorem conserves_iff_threeSent : ∃ es s, Run (alone .atLeastOnce (.count 10) 100) 0 es s ∧
    s.published = 3 ∧ s.acknowledged = 1 ∧ s.refused = [.notAuthorized] ∧ strays es = 0 ∧
    Conserves s := by
  obtain ⟨es, s, hrun, hphase, hack, hsent, hpublished, hacknowledged, hrefused, hstrays⟩ :=
    exists_run (c := alone .atLeastOnce (.count 10) 100) 0 threeSent
      (fun es s ↦ s.phase = .draining .top ∧ s.ack = .reading ∧ s.sent = 3 ∧ s.published = 3 ∧
        s.acknowledged = 1 ∧ s.refused = [.notAuthorized] ∧ strays es = 0) (by decide +kernel)
  have hsends : s.phase.BetweenSends := by
    rw [hphase]
    trivial
  have hpackets : s.ack.BetweenPackets := by
    rw [hack]
    trivial
  exact ⟨es, s, hrun, hpublished, hacknowledged, hrefused, hstrays,
    (conserves_iff (by decide) hrun hsends hpackets (by omega)).2 hstrays⟩

/-- The broker refuses message 7 before any was sent. -/
def refusedEarly : List Act :=
  [.deliver (.packet (.puback ⟨7, .notAuthorized⟩)), .acknowledge, .acknowledge]

/-- **A refusal of an identifier that is not in flight is counted.** -/
theorem not_conserves_refusedEarly : ¬∀ es s, Run (alone .atLeastOnce (.count 10) 100) 0 es s →
    s.phase.BetweenSends → s.ack.BetweenPackets → s.sent ≤ 65535 → Conserves s := by
  intro h
  obtain ⟨es, s, hrun, hphase, hack, hsent, hpublished, hrefused⟩ :=
    exists_run (c := alone .atLeastOnce (.count 10) 100) 0 refusedEarly
      (fun _ s ↦ s.phase = .draining .top ∧ s.ack = .reading ∧ s.sent = 0 ∧ s.published = 0 ∧
        s.refused.length = 1) (by decide +kernel)
  have hconserves := h es s hrun (by rw [hphase]; trivial) (by rw [hack]; trivial) (by omega)
  rw [Conserves, refusals_tally] at hconserves
  omega

end Publisher

end Bench

end PulsemqCli
