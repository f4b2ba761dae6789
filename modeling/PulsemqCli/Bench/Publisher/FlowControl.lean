import PulsemqCli.Bench.Publisher.Ledger
import PulsemqCli.Bench.Publisher.Runs

/-!
# Flow control

A message that is entered in flight is outstanding until its identifier is acknowledged. Whatever
the broker sends, and however the two sides interleave, no more messages are outstanding than
permits are missing from the window, provided an acknowledgement counts from when `complete_ack`
looks for its identifier. It does not count from when it is read: one that is read early can be
looked up late, and then it frees the slot of a message that was entered since.

A permit is missing from the semaphore from the moment it is acquired until the ack side releases
it. In between it belongs to a message which may not be in flight yet, or no longer. Flow control
needs one direction only, that an outstanding message has a permit; `Within` states it by counting,
with the write side's message and the ack side's on either side.

When an acknowledgement is taken to count is a choice. If it counts from when it is read, the
property fails for a reason that has nothing to do with the window: an acknowledgement for an
identifier that was not sent yet can be read first, and the message be entered before the lookup.
The counterexample at the end is this race.
-/

namespace PulsemqCli

namespace Bench

namespace Publisher

open Protocol Transition

/-! ### Outstanding messages -/

/-- An acknowledgement that ends a message's flow, where it is read. -/
def Event.received : Event → Option PacketId
  | .read (.packet p) => (terminal p).map Prod.fst
  | _ => none

/-- An acknowledgement that ends a message's flow, where its identifier is looked up. -/
def Event.handled : Event → Option PacketId
  | .lookedUp id _ _ => some id
  | _ => none

/-- The outstanding identifiers after another event. -/
def outstandingAfter (ends : Event → Option PacketId) (ids : List PacketId) :
    Event → List PacketId
  | .entered id => ids ++ [id]
  | e => (ends e).elim ids fun id ↦ ids.filter (· ≠ id)

/-- The identifiers, in order, of the messages entered in flight that were not ended since. -/
def outstanding (ends : Event → Option PacketId) (es : List Event) : List PacketId :=
  es.foldl (outstandingAfter ends) []

/-! ### The bound -/

/-- The permits held by a message that is not in the map yet. -/
def Stage.held : Stage → ℕ
  | .permitted | .assigned _ _ => 1
  | _ => 0

/-- The permits about to be released by the ack side. -/
def Work.owed : Work → ℕ
  | .freeing _ => 1
  | _ => 0

/-- Outstanding messages are within the window, and what is in the map is outstanding. -/
structure Within (window : ℕ) (ids : List PacketId) (l : Ledger) : Prop where
  bound : l.publishErrors = 0 → ids.length + l.permits + l.stage.held + l.work.owed ≤ window
  failed : ∀ p, l.stage = .failed p → l.publishErrors ≠ 0
  keys : ∀ id ∈ l.inFlight, id ∈ ids

/-- **An entry keeps the outstanding messages within the window.** -/
theorem Within.entry {window : ℕ} {ids : List PacketId} {l l' : Ledger} {es : List Event}
    (h : Within window ids l) (hentry : Ledger.Entry l es l') :
    Within window (es.foldl (outstandingAfter Event.handled) ids) l' := by
  obtain ⟨hbound, hfailed, hkeys⟩ := h
  cases hentry with
  | nothing | disconnect | release | dropRelease | ignore | owe => exact ⟨hbound, hfailed, hkeys⟩
  | acquire hstage hpermits =>
    rw [hstage] at hbound
    refine ⟨fun herrors ↦ ?_, fun _ h ↦ Stage.noConfusion h, hkeys⟩
    have hbound' : ids.length + l.permits + 0 + l.work.owed ≤ window := hbound herrors
    show ids.length + (l.permits - 1) + 1 + l.work.owed ≤ window
    omega
  | assign _ hstage =>
    rw [hstage] at hbound
    exact ⟨hbound, fun _ h ↦ Stage.noConfusion h, hkeys⟩
  | @enter p now id hstage =>
    rw [hstage] at hbound
    refine ⟨fun herrors ↦ ?_, fun _ h ↦ Stage.noConfusion h, fun id' hid' ↦ List.mem_append.2 ?_⟩
    · have hbound' : ids.length + l.permits + 1 + l.work.owed ≤ window := hbound herrors
      show (ids ++ [id]).length + l.permits + 0 + l.work.owed ≤ window
      rw [List.length_append, List.length_singleton]
      omega
    · rcases Finmap.mem_insert.1 hid' with rfl | hmem
      · exact Or.inr (List.mem_singleton_self _)
      · exact Or.inl (hkeys id' hmem)
  | write hstage | count hstage | giveUp hstage | finish hstage =>
    rw [hstage] at hbound
    exact ⟨hbound, fun _ h ↦ Stage.noConfusion h, hkeys⟩
  | fail =>
    have herrors : l.publishErrors + 1 ≠ 0 := Nat.succ_ne_zero _
    exact ⟨fun hzero ↦ absurd hzero herrors, fun _ _ ↦ herrors, hkeys⟩
  | @forfeit p hstage =>
    refine ⟨fun herrors ↦ absurd herrors (hfailed p hstage), fun _ h ↦ Stage.noConfusion h,
      fun id hid ↦ hkeys id ?_⟩
    rcases hp : p.packetId with - | id'
    · simp only [hp] at hid
      exact hid
    · simp only [hp] at hid
      exact (Finmap.mem_erase.1 hid).2
  -- An aborted ack side releases nothing any more.
  | abort hstage =>
    rw [hstage] at hbound
    exact ⟨fun herrors ↦ (Nat.le_add_right _ _).trans (hbound herrors),
      fun _ h ↦ Stage.noConfusion h, hkeys⟩
  | hear hwork =>
    rw [hwork] at hbound
    exact ⟨hbound, hfailed, hkeys⟩
  -- The message found was outstanding, and is no longer.
  | @find id code hwork hmem =>
    rw [hwork] at hbound
    refine ⟨fun herrors ↦ ?_, hfailed, fun id' hid' ↦ List.mem_filter.2 ?_⟩
    · have hlt : (ids.filter (· ≠ id)).length < ids.length :=
        List.length_filter_lt_length_iff_exists.2 ⟨id, hkeys id hmem, by simp⟩
      have hbound' : ids.length + l.permits + l.stage.held + 0 ≤ window := hbound herrors
      show (ids.filter (· ≠ id)).length + l.permits + l.stage.held + 1 ≤ window
      omega
    · obtain ⟨hne, hmem'⟩ := Finmap.mem_erase.1 hid'
      exact ⟨hkeys id' hmem', decide_eq_true hne⟩
  | @miss id code hwork hmem =>
    rw [hwork] at hbound
    refine ⟨fun herrors ↦ ?_, hfailed, fun id' hid' ↦ List.mem_filter.2 ⟨hkeys id' hid', ?_⟩⟩
    · have hle : (ids.filter (· ≠ id)).length ≤ ids.length := List.length_filter_le _ _
      have hbound' : ids.length + l.permits + l.stage.held + 0 ≤ window := hbound herrors
      show (ids.filter (· ≠ id)).length + l.permits + l.stage.held + 0 ≤ window
      omega
    · exact decide_eq_true fun heq ↦ hmem (heq ▸ hid')
  | freeRefused hwork | free hwork =>
    rw [hwork] at hbound
    refine ⟨fun herrors ↦ ?_, hfailed, hkeys⟩
    have hbound' : ids.length + l.permits + l.stage.held + 1 ≤ window := hbound herrors
    show ids.length + (l.permits + 1) + l.stage.held + 0 ≤ window
    omega

variable {c : Setting} {clock : ℕ} {s : State} {es : List Event}

/-- Outstanding messages are within the window in every run. -/
theorem within_of_run (hqos : c.acknowledged = true) (h : Run c clock es s) :
    Within c.window (outstanding Event.handled es) (ledger s) := by
  refine Ledger.of_run hqos (I := fun es l ↦ Within c.window (outstanding Event.handled es) l)
    ⟨fun _ ↦ ?_, fun _ h ↦ Stage.noConfusion h, fun id hid ↦ absurd hid Finmap.notMem_empty⟩ ?_ h
  · show 0 + c.window + 0 + 0 ≤ c.window
    omega
  · intro es l fs l' hI hentry
    rw [outstanding, List.foldl_append]
    exact hI.entry hentry

/-- The window is what was asked for, capped by the Receive Maximum and the identifiers' range, and
never zero. -/
theorem window_eq (c : Setting) : c.window =
    min (max 1 (c.receiveMaximum.elim c.config.inflight fun r ↦ min c.config.inflight r.toNat))
      65535 := by
  unfold Setting.window effectiveInflight
  rw [max_comm]
  cases c.receiveMaximum <;> rfl

/-- A window is within the broker's Receive Maximum. -/
theorem window_le_receiveMaximum {r : UInt16} (h : c.receiveMaximum = some r) (hr : 1 ≤ r.toNat) :
    c.window ≤ r.toNat := by
  rw [window_eq, h, Option.elim_some]
  omega

/-- **Flow control holds against any broker**, an acknowledgement counting from when its
identifier is looked up: the messages outstanding are within the permits that are not available,
and within the broker's Receive Maximum. -/
theorem flowControl (hqos : c.acknowledged = true) :
    1 ≤ c.window ∧
    c.window = min (max 1
      (c.receiveMaximum.elim c.config.inflight fun r ↦ min c.config.inflight r.toNat)) 65535 ∧
    ∀ es s, Run c clock es s → s.publishErrors = 0 →
      s.permits ≤ c.window ∧
      (outstanding Event.handled es).length ≤ c.window - s.permits ∧
      ∀ r, c.receiveMaximum = some r → 1 ≤ r.toNat →
        (outstanding Event.handled es).length ≤ r.toNat := by
  refine ⟨c.window_pos, window_eq c, fun es s hrun herrors ↦ ?_⟩
  have hbound : (outstanding Event.handled es).length + s.permits + s.phase.stage.held +
      s.ack.work.owed ≤ c.window := (within_of_run hqos hrun).bound herrors
  refine ⟨by omega, by omega, fun r hr hpos ↦ ?_⟩
  have hle := window_le_receiveMaximum hr hpos
  omega

/-- Ten messages in a window of a hundred. -/
theorem flowControl_ten : 1 ≤ (alone .atLeastOnce (.count 10) 100).window ∧
    ∀ es s, Run (alone .atLeastOnce (.count 10) 100) 0 es s → s.publishErrors = 0 →
      (outstanding Event.handled es).length ≤
        (alone .atLeastOnce (.count 10) 100).window - s.permits := by
  obtain ⟨hpos, -, hbound⟩ := @flowControl (alone .atLeastOnce (.count 10) 100) 0 (by decide)
  exact ⟨hpos, fun es s hrun herrors ↦ (hbound es s hrun herrors).2.1⟩

/-! ### An acknowledgement read early -/

/-- The write side takes the only permit and assigns the first identifier; the ack side reads an
acknowledgement for it; the message is entered in flight; and only now its identifier is looked up,
found, and its permit released. -/
def early : List Act :=
  List.replicate 6 .advance ++
    [.deliver (.packet (.puback ⟨1, .success⟩)), .acknowledge, .advance, .acknowledge, .acknowledge]

/-- **A message entered after its acknowledgement was read is outstanding without a permit.** -/
theorem not_flowControl_early : ¬∀ es s, Run (alone .atLeastOnce (.count 10) 1) 0 es s →
    s.publishErrors = 0 → (outstanding Event.received es).length ≤
      (alone .atLeastOnce (.count 10) 1).window - s.permits := by
  intro h
  obtain ⟨es, s, hrun, herrors, houtstanding, hpermits⟩ :=
    exists_run (c := alone .atLeastOnce (.count 10) 1) 0 early
      (fun es s ↦ s.publishErrors = 0 ∧ (outstanding Event.received es).length = 1 ∧
        s.permits = 1) (by decide +kernel)
  have hle := h es s hrun herrors
  rw [houtstanding, hpermits] at hle
  exact absurd hle (by decide)

end Publisher

end Bench

end PulsemqCli
