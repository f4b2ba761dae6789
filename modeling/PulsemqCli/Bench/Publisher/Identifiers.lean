import PulsemqCli.Bench.Publisher.Runs
import PulsemqCli.Bench.Publisher.Window

/-!
# Outstanding identifiers

The identifiers go round `1..=65535` whatever the map of the packets in flight holds. The window
bounds how many of them are outstanding, not which: a broker that withholds one acknowledgement
and gives all others lets the counter come back to the identifier that is still outstanding, and
then the map loses an entry and the window a slot. `uniqueIds_iff` says when that can happen.

That identifiers stay unique needs one fact at every entry: the message is `Fresh`. Two conditions
give it, each by an invariant of its own. With a window of one the map is empty whenever a permit is
available; with at most 65535 messages no number is given out twice. Where neither holds,
`can_reuse` builds a run: the first message stays unacknowledged, and 65534 others are sent and
acknowledged one at a time until its identifier is due again. This takes two slots, and messages
enough to come round.

The run is long, so it is described by what it holds on to. `Withheld` says where it is after any
number of messages, and one round of it is the step from one number to the next.
-/

namespace PulsemqCli

namespace Bench

namespace Publisher

open Protocol Transition

variable {c : Setting} {clock : ℕ} {s s' : State}

/-- The ack side is between two packets. -/
def AckPhase.BetweenPackets : AckPhase → Prop
  | .completing _ _ | .freeing _ _ => False
  | _ => True

theorem AckPhase.BetweenPackets.owed_eq {a : AckPhase} (h : a.BetweenPackets) : a.owed = 0 := by
  cases a with
  | completing | freeing => exact h.elim
  | _ => rfl

/-- In every run, whatever the broker sends, a message is assigned an identifier that is not in
the map, and at the top of the send loop, with the ack side between packets, the available permits
and the map make up the window. -/
def UniqueIds (c : Setting) (clock : ℕ) : Prop :=
  Always (Step c) (initial c clock) fun s ↦
    Fresh s ∧ (s.phase = .draining .top → s.ack.BetweenPackets →
      s.permits + s.inFlight.keys.card = c.window)

/-! ### Where identifiers stay unique -/

/-- All permits are in the semaphore at first. -/
theorem balanced_initial (c : Setting) (clock : ℕ) : Balanced c (initial c clock) := by
  show c.window + (∅ : Finmap fun _ : PacketId ↦ ℕ).keys.card + 0 + 0 = c.window
  rw [Finmap.keys_empty, Finset.card_empty]
  omega

theorem labelled_initial (c : Setting) (clock : ℕ) : Labelled (initial c clock) :=
  fun _ _ hphase ↦ Phase.noConfusion hphase

theorem belowQuota_initial (c : Setting) (clock : ℕ) : BelowQuota c (initial c clock) :=
  fun _ _ hwithin ↦ hwithin.elim

theorem numbered_initial (c : Setting) (clock : ℕ) : Numbered (initial c clock) where
  next := rfl
  keys _ hid := absurd hid Finmap.notMem_empty

/-- At the top of the send loop the balance is between the permits and the map. -/
theorem Balanced.atTop (h : Balanced c s) (hphase : s.phase = .draining .top)
    (hack : s.ack.BetweenPackets) : s.permits + s.inFlight.keys.card = c.window := by
  unfold Balanced at h
  rw [hphase, hack.owed_eq] at h
  exact h

/-- An invariant that keeps messages fresh keeps the identifiers unique. -/
theorem uniqueIds_of_invariant (hqos : c.acknowledged = true) (I : State → Prop)
    (init : I (initial c clock))
    (hfresh : ∀ s, Labelled s → Running s → Balanced c s → I s → Fresh s)
    (preserved : ∀ s s', Labelled s → BelowQuota c s → Running s' → I s → Move c s s' → I s') :
    UniqueIds c clock := by
  have hall : Always (Step c) (initial c clock)
      fun s ↦ Labelled s ∧ BelowQuota c s ∧ (Running s → Balanced c s ∧ I s) := by
    refine always_of_invariant ⟨labelled_initial c clock, belowQuota_initial c clock, fun _ ↦
      ⟨balanced_initial c clock, init⟩⟩ fun s s' h hstep ↦ ?_
    obtain ⟨hlabelled, hbelow, hrunning⟩ := h
    have hm := move_of_step hstep
    refine ⟨hlabelled.move hm, hbelow.move hm, fun hs' ↦ ?_⟩
    have hs : Running s := hs'.of_move hm
    obtain ⟨hbalanced, hI⟩ := hrunning hs
    have hnone : ∀ p now, s.phase = .assigned p now → p.packetId ≠ none := by
      intro p now hphase
      rw [hlabelled p now hphase]
      exact Option.some_ne_none _
    exact ⟨hbalanced.move hqos (hfresh s hlabelled hs hbalanced hI) hnone hm hs',
      preserved s s' hlabelled hbelow hs' hI hm⟩
  refine hall.mono fun s h ↦ ?_
  obtain ⟨hlabelled, -, hrunning⟩ := h
  constructor
  · intro p now id hphase
    have hs : Running s := fun r hr ↦ nomatch hphase.symm.trans hr
    obtain ⟨hbalanced, hI⟩ := hrunning hs
    exact hfresh s hlabelled hs hbalanced hI p now id hphase
  · intro hphase
    have hs : Running s := fun r hr ↦ nomatch hphase.symm.trans hr
    exact (hrunning hs).1.atTop hphase

/-- With a window of one, the map is empty when a message is assigned its identifier. -/
theorem uniqueIds_of_window (hqos : c.acknowledged = true) (h : c.window = 1) :
    UniqueIds c clock := by
  refine uniqueIds_of_invariant hqos (fun _ ↦ True) trivial ?_ fun _ _ _ _ _ _ _ ↦ trivial
  rintro s - - hbalanced - p now id hphase - hmem
  have hpos := Finset.card_pos.2 ⟨id, Finmap.mem_keys.2 hmem⟩
  unfold Balanced at hbalanced
  rw [hphase, h] at hbalanced
  have hbalanced' : s.permits + s.inFlight.keys.card + 1 + s.ack.owed = 1 := hbalanced
  omega

/-- With a quota within the identifiers' range, no identifier is assigned twice. -/
theorem uniqueIds_of_quota (hqos : c.acknowledged = true) {q : ℕ} (hquota : c.quota = some q)
    (hq : q ≤ 65535) : UniqueIds c clock :=
  uniqueIds_of_invariant hqos Numbered (numbered_initial c clock)
    (fun _ hlabelled _ _ h ↦ h.fresh hlabelled)
    (fun _ _ hlabelled hbelow hs' h hm ↦ h.move hqos hlabelled hbelow hquota hq hm hs')

/-! ### Where one comes back -/

/-- The identifier of the message after `n` others. -/
theorem toNat_nextId_iterate (n : ℕ) : (nextId^[n + 1] 0).toNat = n % 65535 + 1 := by
  rw [Function.iterate_succ_apply, nextId_eq]
  have hne : Client.succPacketId 0 ≠ 0 := Client.succPacketId_ne_zero 0
  have h := Client.toNat_iterate_succPacketId hne n
  rw [h, show (Client.succPacketId 0).toNat = 1 from rfl]
  simp

/-- After `n + 1` messages, of which only the first is outstanding. -/
structure Withheld (c : Setting) (n : ℕ) (s : State) : Prop where
  top : AtTop s
  listening : Listening s
  sent : s.sent = n + 1
  next : s.nextPacketId = nextId^[n + 1] 0
  permits : s.permits + 1 = c.window
  keys : s.inFlight.keys = {1}

/-- The send loop begins at its top. -/
theorem atTop_initial (c : Setting) (clock : ℕ) : AtTop (initial c clock) :=
  ⟨rfl, rfl, rfl, rfl⟩

/-- And it is there again when a message is sent. -/
theorem AtTop.sentNext (h : AtTop s) : AtTop (sentNext c s) :=
  ⟨rfl, h.pubrels, h.stop, h.closed⟩

/-- The message sent next is acknowledged at once, by PUBACK or by the handshake of QoS 2. -/
theorem reaches_acknowledged (h : AtTop s) (hlistening : Listening s) (hmore : More c s)
    (hqos : c.acknowledged = true) (hpermits : s.permits ≠ 0) :
    ∃ s', Reaches (Served c) s s' ∧ AtTop s' ∧ Listening s' ∧ s'.sent = s.sent + 1 ∧
      s'.nextPacketId = nextId s.nextPacketId ∧ s'.permits = s.permits ∧
      s'.inFlight.keys = (insert (nextId s.nextPacketId) s.inFlight.keys).erase
        (nextId s.nextPacketId) := by
  have hsend := served_of_unaided (reaches_sentNext h hmore hqos hpermits)
  have htop : AtTop (sentNext c s) := h.sentNext
  have hlisten : Listening (sentNext c s) := ⟨hlistening.ack, hlistening.inbound⟩
  have hlookup : (sentNext c s).inFlight.lookup (nextId s.nextPacketId) = some (dueTime c s) :=
    Finmap.lookup_insert _
  have hpermits' : s.permits - 1 + 1 = s.permits := by omega
  have hkeys : ((sentNext c s).inFlight.erase (nextId s.nextPacketId)).keys =
      (insert (nextId s.nextPacketId) s.inFlight.keys).erase (nextId s.nextPacketId) := by
    rw [Finmap.keys_erase, show (sentNext c s).inFlight.keys = _ from keys_insert _ _ _]
  by_cases hexactly : c.config.qos = .exactlyOnce
  · let s₁ : State := { sentNext c s with
      written := (sentNext c s).written ++ [.pubrel ⟨nextId s.nextPacketId, .success⟩] }
    have hrelease : Reaches (Served c) (sentNext c s) s₁ := reaches_released _ hlisten htop
    have hcomplete : Reaches (Served c) s₁ (completed c s₁ (nextId s.nextPacketId) (dueTime c s)) :=
      reaches_completed ⟨hlisten.ack, hlisten.inbound⟩ hlookup (Or.inr rfl)
    exact ⟨_, (hsend.trans hrelease).trans hcomplete, ⟨rfl, h.pubrels, h.stop, h.closed⟩,
      ⟨hlisten.ack, hlisten.inbound⟩, rfl, rfl, hpermits', hkeys⟩
  · have hcomplete : Reaches (Served c) (sentNext c s)
        (completed c (sentNext c s) (nextId s.nextPacketId) (dueTime c s)) :=
      reaches_completed hlisten hlookup (Or.inl rfl)
    exact ⟨_, hsend.trans hcomplete, ⟨rfl, h.pubrels, h.stop, h.closed⟩,
      ⟨hlisten.ack, hlisten.inbound⟩, rfl, rfl, hpermits', hkeys⟩

/-- The broker withholds the first acknowledgement and gives all others. -/
theorem reaches_withheld (clock : ℕ) (hqos : c.acknowledged = true) (hwindow : c.window ≠ 1)
    (hquota : ∀ q, c.quota = some q → 65535 < q) {n : ℕ} (hn : n < 65535) :
    ∃ s, Reaches (Step c) (initial c clock) s ∧ Withheld c n s := by
  have hpos := c.window_pos
  induction n with
  | zero =>
    have hmore : More c (initial c clock) := fun q hq ↦ by
      have hlt := hquota q hq
      show 0 < q
      omega
    have hsend := reaches_of_unaided
      (reaches_sentNext (atTop_initial c clock) hmore hqos hpos.ne')
    refine ⟨_, hsend, (atTop_initial c clock).sentNext, ⟨rfl, rfl⟩, rfl, rfl, ?_, ?_⟩
    · show c.window - 1 + 1 = c.window
      omega
    · exact keys_insert _ _ _
  | succ n ih =>
    obtain ⟨s, hreach, h⟩ := ih (by omega)
    have hmore : More c s := fun q hq ↦ by
      have := hquota q hq
      rw [h.sent]
      omega
    have hpermits : s.permits ≠ 0 := fun h0 ↦ hwindow (by rw [← h.permits, h0])
    obtain ⟨s', hreach', htop, hlistening, hsent, hnext, hpermits', hkeys⟩ :=
      reaches_acknowledged h.top h.listening hmore hqos hpermits
    have hid : nextId s.nextPacketId = nextId^[n + 2] 0 := by
      rw [h.next, ← Function.iterate_succ_apply' nextId (n + 1) 0]
    have hne : nextId s.nextPacketId ∉ ({1} : Finset PacketId) := by
      intro hmem
      have htoNat := toNat_nextId_iterate (n + 1)
      rw [← hid, Finset.mem_singleton.1 hmem, Nat.mod_eq_of_lt hn] at htoNat
      simp at htoNat
    refine ⟨s', hreach.trans (reaches_of_served hreach'), htop, hlistening, by rw [hsent, h.sent],
      hnext.trans hid, by rw [hpermits', h.permits], ?_⟩
    rw [hkeys, h.keys, Finset.erase_insert hne]

/-- **The identifier still outstanding comes back.** -/
theorem can_reuse (hqos : c.acknowledged = true) (hwindow : c.window ≠ 1)
    (hquota : ∀ q, c.quota = some q → 65535 < q) :
    Can (Step c) (initial c clock) fun s ↦ ¬Fresh s := by
  obtain ⟨s, hreach, h⟩ := reaches_withheld clock hqos hwindow hquota
    (show 65534 < 65535 by decide)
  have hmore : More c s := fun q hq ↦ by
    rw [h.sent]
    exact hquota q hq
  have hpermits : s.permits ≠ 0 := fun h0 ↦ hwindow (by rw [← h.permits, h0])
  have henter := reaches_of_unaided (reaches_entering h.top hmore hqos hpermits)
  refine ⟨_, hreach.trans henter, fun hfresh ↦ ?_⟩
  have hid : nextId s.nextPacketId = 1 := by
    have htoNat := toNat_nextId_iterate 65535
    rw [h.next, ← Function.iterate_succ_apply' nextId 65535 0]
    exact UInt16.toNat_inj.1 (htoNat.trans rfl)
  refine hfresh _ _ 1 rfl (congrArg some hid) (Finmap.mem_keys.1 ?_)
  show (1 : PacketId) ∈ s.inFlight.keys
  rw [h.keys]
  exact Finset.mem_singleton_self 1

/-- **Outstanding identifiers are unique, and no slot leaks, exactly if the window is one or the
publisher has at most 65535 messages to send.** -/
theorem uniqueIds_iff (hqos : c.acknowledged = true) :
    UniqueIds c clock ↔ c.window = 1 ∨ ∃ q, c.quota = some q ∧ q ≤ 65535 := by
  constructor
  · intro h
    by_contra hnot
    obtain ⟨hwindow, hquota⟩ := not_or.1 hnot
    refine not_always_of_can (can_reuse hqos hwindow fun q hq ↦ ?_) (h.mono fun _ hs ↦ hs.1)
    exact not_le.1 fun hle ↦ hquota ⟨q, hq, hle⟩
  · rintro (hwindow | ⟨q, hquota, hq⟩)
    · exact uniqueIds_of_window hqos hwindow
    · exact uniqueIds_of_quota hqos hquota hq

/-- Ten messages in a window of a hundred. -/
theorem uniqueIds_iff_ten : UniqueIds (alone .exactlyOnce (.count 10) 100) 0 :=
  (uniqueIds_iff (by decide)).2 (Or.inr ⟨10, by decide, by decide⟩)

/-- A timed run with a window of two: the broker withholds the acknowledgement of message 1, and
message 65536 is assigned its identifier. -/
theorem not_uniqueIds_timed : ¬UniqueIds (alone .atLeastOnce (.duration (10 ^ 12)) 2) 0 := by
  intro h
  refine not_always_of_can (can_reuse (by decide) (by decide) ?_) (h.mono fun _ hs ↦ hs.1)
  intro q hq
  cases hq

end Publisher

end Bench

end PulsemqCli
