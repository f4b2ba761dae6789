import PulsemqCli.Bench.Publisher.Moves

/-!
# The in-flight window

A permit is available, held by a message on its way into the map, standing for a message in the
map, or about to be released by the ack side. `Balanced` says that no permit is lost between them.
It is kept as long as a message enters the map under an identifier that is not there yet, which the
code takes from the window being no wider than the identifiers' range. Whether that is enough
depends on how long the run is.

The first section is the frame: `leave`, `drained`, `on_packet` and a failed write each change a few
fields, and the simp lemmas say which they leave alone. `SameSurroundings` collects what no step of
either side touches, the clock and the stop signal.

`Balanced` is then one equation about four numbers, and `Balanced.move` shows that every step moves
a permit from one of them to another. Only one case needs an assumption. When a message enters the
map, the number of its keys grows by one only if the identifier is new; an entry that is overwritten
would take its permit with it. This is `Fresh`.

Where the assumption comes from depends on the run. With a quota of at most 65535 messages the
identifiers are just the numbers from 1 on, which `Numbered` says, and a number above all of those
in the map is fresh (`Numbered.fresh`). Other conditions under which no identifier is reused while
it is outstanding belong to the modules that need them.
-/

namespace PulsemqCli

namespace Bench

namespace Publisher

open Protocol Transition

variable {c : Setting} {s s' : State}

/-! ### What leaves the accounts alone -/

@[simp] theorem leave_permits (s : State) : (leave s).permits = s.permits := rfl
@[simp] theorem leave_inFlight (s : State) : (leave s).inFlight = s.inFlight := rfl
@[simp] theorem leave_ack (s : State) : (leave s).ack = s.ack := rfl
@[simp] theorem leave_sent (s : State) : (leave s).sent = s.sent := rfl
@[simp] theorem leave_nextPacketId (s : State) : (leave s).nextPacketId = s.nextPacketId := rfl
@[simp] theorem leave_written (s : State) : (leave s).written = s.written := rfl

/-- Once its send loop is over, the write side waits for the window to drain, or disconnects right
away. -/
theorem leave_phase (s : State) :
    (leave s).phase = .disconnecting ∨ ∃ deadline, (leave s).phase = .waiting deadline := by
  unfold leave
  rcases s.windowClosed with - | -
  · exact Or.inr ⟨_, rfl⟩
  · exact Or.inl rfl

section Drained

variable (s : State) (d : Drain)

@[simp] theorem drained_permits : (drained s d).permits = s.permits := by cases d <;> rfl
@[simp] theorem drained_inFlight : (drained s d).inFlight = s.inFlight := by cases d <;> rfl
@[simp] theorem drained_ack : (drained s d).ack = s.ack := by cases d <;> rfl
@[simp] theorem drained_sent : (drained s d).sent = s.sent := by cases d <;> rfl
@[simp] theorem drained_written : (drained s d).written = s.written := by cases d <;> rfl
@[simp] theorem drained_nextPacketId : (drained s d).nextPacketId = s.nextPacketId := by
  cases d <;> rfl

@[simp] theorem drained_windowClosed : (drained s d).windowClosed = s.windowClosed := by
  cases d <;> rfl

@[simp] theorem drained_pubrels : (drained s d).pubrels = s.pubrels := by cases d <;> rfl

/-- Draining the channel reads nothing. -/
theorem drained_inbound : (drained s d).inbound = s.inbound := by cases d <;> rfl

/-- After a drain the write side goes on in the send loop, in the wait for the window, or at the
DISCONNECT. -/
theorem drained_phase :
    (drained s d).phase = .checkingQuota ∨ (drained s d).phase = .disconnecting ∨
      ∃ deadline wake, (drained s d).phase = .napping deadline wake := by
  cases d with
  | top => exact Or.inl rfl
  | waiting deadline => exact Or.inr (Or.inr ⟨_, _, rfl⟩)
  | last => exact Or.inr (Or.inl rfl)

end Drained

section OnPacket

variable (s : State) (p : Packet)

@[simp] theorem onPacket_permits : (onPacket s p).permits = s.permits := by
  unfold onPacket
  split <;> first | rfl | (split <;> rfl)

@[simp] theorem onPacket_inFlight : (onPacket s p).inFlight = s.inFlight := by
  unfold onPacket
  split <;> first | rfl | (split <;> rfl)

/-- What the ack side does with a packet takes no other one. -/
theorem onPacket_inbound : (onPacket s p).inbound = s.inbound := by
  unfold onPacket
  split <;> first | rfl | (split <;> rfl)

/-- The write side is not affected by what the ack side reads. -/
@[simp] theorem onPacket_phase : (onPacket s p).phase = s.phase := by
  unfold onPacket
  split <;> first | rfl | (split <;> rfl)

@[simp] theorem onPacket_sent : (onPacket s p).sent = s.sent := by
  unfold onPacket
  split <;> first | rfl | (split <;> rfl)

@[simp] theorem onPacket_nextPacketId : (onPacket s p).nextPacketId = s.nextPacketId := by
  unfold onPacket
  split <;> first | rfl | (split <;> rfl)

@[simp] theorem onPacket_windowClosed : (onPacket s p).windowClosed = s.windowClosed := by
  unfold onPacket
  split <;> first | rfl | (split <;> rfl)

@[simp] theorem onPacket_written : (onPacket s p).written = s.written := by
  unfold onPacket
  split <;> first | rfl | (split <;> rfl)

/-- A packet read releases nothing yet. -/
theorem onPacket_ack :
    (onPacket s p).ack = s.ack ∨ ∃ id code, (onPacket s p).ack = .completing id code := by
  unfold onPacket
  split
  · exact Or.inr ⟨_, _, rfl⟩
  · exact Or.inr ⟨_, _, rfl⟩
  · split
    · exact Or.inr ⟨_, _, rfl⟩
    · exact Or.inl rfl
  · exact Or.inl rfl

end OnPacket

/-- A write that fails moves the write side on, and is counted at most. -/
theorem frame_of_fail {e : MqttError} (h : fail c e s = some s') :
    ∃ phase errors, s' = { s with phase := phase, publishErrors := errors } := by
  unfold fail at h
  cases hphase : s.phase with
  | releasing d id =>
    rw [hphase] at h
    cases d <;> cases h <;> exact ⟨_, _, rfl⟩
  | writing | disconnecting =>
    rw [hphase] at h
    cases h
    exact ⟨_, _, rfl⟩
  | _ =>
    rw [hphase] at h
    cases h

/-- The ack side leaves the write side where it is. -/
theorem acknowledge_phase (h : acknowledge c s = some s') : s'.phase = s.phase := by
  unfold acknowledge at h
  repeat' split at h
  all_goals cases h
  all_goals first
    | exact onPacket_phase _ _
    | rfl

/-- The clock and the stop signal are the same in both states. -/
structure SameSurroundings (s s' : State) : Prop where
  clock : s'.clock = s.clock
  stop : s'.stop = s.stop
  stopDropped : s'.stopDropped = s.stopDropped

theorem sameSurroundings_drained (s : State) (d : Drain) : SameSurroundings s (drained s d) := by
  cases d <;> exact ⟨rfl, rfl, rfl⟩

theorem sameSurroundings_onPacket (s : State) (p : Packet) :
    SameSurroundings s (onPacket s p) := by
  unfold onPacket
  split <;> first | exact ⟨rfl, rfl, rfl⟩ | (split <;> exact ⟨rfl, rfl, rfl⟩)

/-- **Neither side touches the clock or the stop signal**, and nor does the broker. -/
theorem sameSurroundings_of_step {a : Act} (h : step c s a = some s')
    (htick : ∀ nanos, a ≠ .tick nanos) (hraise : a ≠ .raiseStop) (hdrop : a ≠ .dropStop) :
    SameSurroundings s s' := by
  cases a with
  | tick nanos => exact absurd rfl (htick nanos)
  | raiseStop => exact absurd rfl hraise
  | dropStop => exact absurd rfl hdrop
  | deliver =>
    cases h
    exact ⟨rfl, rfl, rfl⟩
  | advance =>
    simp only [step, advance] at h
    repeat' split at h
    all_goals cases h
    all_goals first | exact ⟨rfl, rfl, rfl⟩ | exact sameSurroundings_drained _ _
  | fail e =>
    obtain ⟨_, _, rfl⟩ := frame_of_fail h
    exact ⟨rfl, rfl, rfl⟩
  | halt =>
    simp only [step, halt] at h
    repeat' split at h
    all_goals cases h
    all_goals exact ⟨rfl, rfl, rfl⟩
  | acknowledge =>
    simp only [step, acknowledge] at h
    repeat' split at h
    all_goals cases h
    all_goals first
      | exact ⟨rfl, rfl, rfl⟩
      | exact ⟨(sameSurroundings_onPacket _ _).clock, (sameSurroundings_onPacket _ _).stop,
          (sameSurroundings_onPacket _ _).stopDropped⟩
  | timeout =>
    simp only [step, timeout] at h
    repeat' split at h
    all_goals cases h
    all_goals exact ⟨rfl, rfl, rfl⟩

/-! ### The balance -/

/-- The permits held by a message that is not in the map yet. -/
def Phase.held : Phase → ℕ
  | .permitted | .assigned _ _ => 1
  | _ => 0

/-- The permits about to be released by the ack side. -/
def AckPhase.owed : AckPhase → ℕ
  | .freeing _ _ => 1
  | _ => 0

/-- The run has not returned. -/
def Running (s : State) : Prop :=
  ∀ r, s.phase ≠ .returned r

/-- No permit is lost. -/
def Balanced (c : Setting) (s : State) : Prop :=
  s.permits + s.inFlight.keys.card + s.phase.held + s.ack.owed = c.window

/-- A message about to enter the map has an identifier that is not there. -/
def Fresh (s : State) : Prop :=
  ∀ p now id, s.phase = .assigned p now → p.packetId = some id → id ∉ s.inFlight

/-- The identifiers in the map after a message entered it. -/
theorem keys_insert (m : Finmap fun _ : PacketId ↦ ℕ) (id : PacketId) (now : ℕ) :
    (m.insert id now).keys = insert id m.keys := by
  ext id'
  rw [Finmap.mem_keys, Finmap.mem_insert, Finset.mem_insert, Finmap.mem_keys]

/-- Outside of the send loop no permit is held. -/
theorem held_leave (s : State) : (leave s).phase.held = 0 := by
  rcases leave_phase s with hphase | ⟨deadline, hphase⟩ <;> rw [hphase] <;> rfl

theorem held_drained (s : State) (d : Drain) : (drained s d).phase.held = 0 := by
  cases d <;> rfl

/-- A packet that is only read owes no permit yet; it is `acknowledge` that takes the message out.
-/
theorem owed_onPacket {s : State} (p : Packet) (h : s.ack = .reading) :
    (onPacket s p).ack.owed = 0 := by
  rcases onPacket_ack s p with hack | ⟨id, code, hack⟩
  · rw [hack, h]
    rfl
  · rw [hack]
    rfl

/-- A run that has returned does not go on. -/
theorem Running.of_move (hm : Move c s s') (h : Running s') : Running s := by
  intro r hr
  cases hm with
  | tick | deliver | raiseStop | dropStop | readEof | readError | complete | completeUnknown
  | freeRefused | free | close => exact h r hr
  | read => exact h r ((onPacket_phase _ _).trans hr)
  | receive hphase | drained hphase | release hphase | releaseFails hphase
  | releaseIgnored hphase | quotaReached hphase | quotaLeft hphase | stopSeen hphase
  | stopUnseen hphase | due hphase | haltPacing hphase | unacknowledged hphase
  | acquireClosed hphase | acquire hphase | haltAcquiring hphase | assign hphase
  | assignNone hphase | insert hphase | insertNone hphase | write hphase | writeFails hphase
  | count hphase | forfeit hphase | settled hphase | unsettled hphase | wake hphase
  | disconnect hphase | disconnectFails hphase | joined hphase | timeout hphase =>
    exact absurd (hphase.symm.trans hr) nofun

/-- **A step keeps the balance, where a message that enters the map is fresh.** -/
theorem Balanced.move (h : Balanced c s) (hqos : c.acknowledged = true) (hfresh : Fresh s)
    (hassigned : ∀ p now, s.phase = .assigned p now → p.packetId ≠ none) (hm : Move c s s')
    (hrunning : Running s') : Balanced c s' := by
  unfold Balanced at h ⊢
  cases hm with
  | tick | deliver | raiseStop | dropStop => exact h
  -- The write side passes no permit on.
  | receive hphase | release hphase | quotaLeft hphase | stopUnseen hphase | due hphase
  | assign hphase | write hphase | writeFails hphase | count hphase | settled hphase
  | unsettled hphase | wake hphase | disconnect hphase | disconnectFails hphase =>
    rw [hphase] at h
    exact h
  | drained hphase | releaseIgnored hphase =>
    rw [hphase] at h
    rw [held_drained, drained_permits, drained_inFlight, drained_ack]
    exact h
  | quotaReached hphase | stopSeen hphase | haltPacing hphase | acquireClosed hphase
  | haltAcquiring hphase =>
    rw [hphase] at h
    rw [held_leave]
    exact h
  | releaseFails | forfeit | joined | timeout => exact absurd rfl (hrunning _)
  | unacknowledged _ hnot | assignNone _ hnot => exact absurd (hqos.symm.trans hnot) nofun
  | insertNone hphase hid => exact absurd hid (hassigned _ _ hphase)
  -- A permit is taken, goes with the message, and stands for it in the map.
  | acquire hphase _ _ hpermits =>
    rw [hphase] at h
    show s.permits - 1 + s.inFlight.keys.card + 1 + s.ack.owed = c.window
    have h' : s.permits + s.inFlight.keys.card + 0 + s.ack.owed = c.window := h
    omega
  | @insert p now id hphase hid =>
    have hnotMem : id ∉ s.inFlight.keys := fun hmem ↦
      hfresh p now id hphase hid (Finmap.mem_keys.1 hmem)
    rw [hphase] at h
    show s.permits + (s.inFlight.insert id now).keys.card + 0 + s.ack.owed = c.window
    have h' : s.permits + s.inFlight.keys.card + 1 + s.ack.owed = c.window := h
    rw [keys_insert, Finset.card_insert_of_notMem hnotMem]
    omega
  -- The ack side takes a message out of the map, and releases its permit.
  | @read p rest hack =>
    rw [hack] at h
    rw [owed_onPacket p (s := { s with inbound := rest }) hack, onPacket_permits,
      onPacket_inFlight, onPacket_phase]
    exact h
  | readEof hack | readError hack | completeUnknown hack | close hack =>
    rw [hack] at h
    exact h
  | @complete id code sentAt hack hlookup =>
    rw [hack] at h
    have hmem : id ∈ s.inFlight.keys :=
      Finmap.mem_keys.2 (Finmap.mem_of_lookup_eq_some hlookup)
    have hpos := Finset.card_pos.2 ⟨id, hmem⟩
    show s.permits + (s.inFlight.erase id).keys.card + s.phase.held + 1 = c.window
    have h' : s.permits + s.inFlight.keys.card + s.phase.held + 0 = c.window := h
    rw [Finmap.keys_erase, Finset.card_erase_of_mem hmem]
    omega
  | freeRefused hack | free hack =>
    rw [hack] at h
    show s.permits + 1 + s.inFlight.keys.card + s.phase.held + 0 = c.window
    have h' : s.permits + s.inFlight.keys.card + s.phase.held + 1 = c.window := h
    omega

/-! ### The identifiers

Under a quota of at most 65535 messages the identifier given out last is the number of messages
begun, so that all identifiers in the map are numbers up to that. A message in the hands of the
write side may be begun and not yet counted as sent; `uncounted` says so by its phase. -/

/-- Whether the write side has assigned an identifier to a message that is not counted yet. -/
def Phase.uncounted : Phase → ℕ
  | .assigned _ _ | .writing _ | .written _ | .failing _ _ => 1
  | _ => 0

/-- Whether it has entered that message into the map. -/
def Phase.entered : Phase → ℕ
  | .writing _ | .written _ | .failing _ _ => 1
  | _ => 0

/-- The write side is past the quota check. -/
def Phase.WithinQuota : Phase → Prop
  | .checkingStop | .pacing | .acquiring | .permitted => True
  | .assigned _ _ | .writing _ | .written _ | .failing _ _ => True
  | _ => False

/-- A message past the quota check is within the quota. -/
def BelowQuota (c : Setting) (s : State) : Prop :=
  ∀ q, c.quota = some q → s.phase.WithinQuota → s.sent < q

/-- While the identifiers do not wrap, they count the messages, and the map holds only
identifiers of messages counted or entered. -/
structure Numbered (s : State) : Prop where
  next : s.nextPacketId.toNat = s.sent + s.phase.uncounted
  keys : ∀ id ∈ s.inFlight, id.toNat ≤ s.sent + s.phase.entered

/-- A message being assigned has the identifier assigned last. -/
def Labelled (s : State) : Prop :=
  ∀ p now, s.phase = .assigned p now → p.packetId = some s.nextPacketId

/-- As long as allocation has not gone round, the next identifier is the next number. -/
theorem toNat_nextId {id : PacketId} (h : id.toNat < 65535) :
    (nextId id).toNat = id.toNat + 1 := by
  rw [nextId_eq, Client.toNat_succPacketId, if_neg (by omega)]

/-- A message being assigned always has an identifier. -/
theorem Labelled.move (h : Labelled s) (hm : Move c s s') : Labelled s' := by
  intro p now hphase'
  cases hm with
  | tick | deliver | raiseStop | dropStop | readEof | readError | complete | completeUnknown
  | freeRefused | free | close => exact h p now hphase'
  | read =>
    rw [onPacket_phase] at hphase'
    rw [onPacket_nextPacketId]
    exact h p now hphase'
  | assign hphase =>
    cases hphase'
    rfl
  | @drained d | @releaseIgnored d =>
    cases d <;> cases hphase'
  | quotaReached | stopSeen | haltPacing | acquireClosed | haltAcquiring =>
    rcases leave_phase _ with hl | ⟨_, hl⟩ <;> exact absurd (hl.symm.trans hphase') nofun
  | _ => cases hphase'

/-- A message past the quota check stays within the quota. -/
theorem BelowQuota.move (h : BelowQuota c s) (hm : Move c s s') : BelowQuota c s' := by
  intro q hq hwithin
  cases hm with
  | tick | deliver | raiseStop | dropStop | readEof | readError | complete | completeUnknown
  | freeRefused | free | close => exact h q hq hwithin
  | read =>
    rw [onPacket_phase] at hwithin
    rw [onPacket_sent]
    exact h q hq hwithin
  | quotaLeft _ hlt => exact hlt q hq
  | stopUnseen hphase | due hphase | unacknowledged hphase | acquire hphase | assign hphase
  | assignNone hphase | insert hphase | insertNone hphase | write hphase | writeFails hphase =>
    exact h q hq (by rw [hphase]; trivial)
  | @drained d | @releaseIgnored d => cases d <;> exact hwithin.elim
  | quotaReached | stopSeen | haltPacing | acquireClosed | haltAcquiring =>
    rcases leave_phase _ with hl | ⟨_, hl⟩ <;> rw [hl] at hwithin <;> exact hwithin.elim
  | _ => exact hwithin.elim

/-- A step writes the message it is at, or a packet that is no PUBLISH, or nothing. -/
theorem written_of_move (hm : Move c s s') :
    s'.written = s.written ∨ ∃ x, s'.written = s.written ++ [x] ∧
      ∀ p, x = .publish p → s.phase = .writing p := by
  cases hm with
  | write hphase =>
    refine Or.inr ⟨_, rfl, fun p hp ↦ ?_⟩
    rw [hphase, Packet.publish.inj hp]
  | release | disconnect => exact Or.inr ⟨_, rfl, fun p hp ↦ Packet.noConfusion hp⟩
  | read => exact Or.inl (onPacket_written _ _)
  | drained | releaseIgnored => exact Or.inl (drained_written _ _)
  | _ => exact Or.inl rfl

/-- With nothing to send, no PUBLISH is written. -/
theorem not_publish_of_move (hquota : c.quota = some 0) (hbelow : BelowQuota c s)
    (h : ∀ p, .publish p ∉ s.written) (hm : Move c s s') : ∀ p, .publish p ∉ s'.written := by
  intro p hp
  rcases written_of_move hm with hwritten | ⟨x, hwritten, hx⟩
  · rw [hwritten] at hp
    exact h p hp
  · rw [hwritten, List.mem_append, List.mem_singleton] at hp
    rcases hp with hp | hp
    · exact h p hp
    · have hlt : s.sent < 0 := hbelow 0 hquota (by rw [hx p hp.symm]; trivial)
      omega

/-- **What is numbered is fresh.** The next message's number is above every number in the map. -/
theorem Numbered.fresh (h : Numbered s) (hlabelled : Labelled s) : Fresh s := by
  intro p now id hphase hid hmem
  have hkeys := h.keys id hmem
  have hnext := h.next
  rw [hlabelled p now hphase, Option.some.injEq] at hid
  rw [hphase] at hkeys hnext
  rw [hid] at hnext
  have hkeys' : id.toNat ≤ s.sent + 0 := hkeys
  have hnext' : id.toNat = s.sent + 1 := hnext
  omega

/-- The numbering depends on these five things only. -/
theorem Numbered.congr (h : Numbered s) (hnext : s'.nextPacketId = s.nextPacketId)
    (hsent : s'.sent = s.sent) (hinFlight : s'.inFlight = s.inFlight)
    (huncounted : s'.phase.uncounted = s.phase.uncounted)
    (hentered : s'.phase.entered = s.phase.entered) : Numbered s' where
  next := by rw [hnext, hsent, huncounted, h.next]
  keys id hid := by
    rw [hsent, hentered]
    exact h.keys id (hinFlight ▸ hid)

/-- **A step keeps the messages numbered, where the quota is within the identifiers' range.** -/
theorem Numbered.move (h : Numbered s) (hqos : c.acknowledged = true) (hlabelled : Labelled s)
    (hbelow : BelowQuota c s) {q : ℕ} (hquota : c.quota = some q) (hq : q ≤ 65535)
    (hm : Move c s s') (hrunning : Running s') : Numbered s' := by
  cases hm with
  | tick | deliver | raiseStop | dropStop | readEof | readError | completeUnknown | freeRefused
  | free | close => exact h.congr rfl rfl rfl rfl rfl
  | read =>
    exact h.congr (onPacket_nextPacketId _ _) (onPacket_sent _ _) (onPacket_inFlight _ _)
      (by rw [onPacket_phase]) (by rw [onPacket_phase])
  | complete => exact ⟨h.next, fun id hid ↦ h.keys id (Finmap.mem_erase.1 hid).2⟩
  | receive hphase | release hphase | settled hphase | unsettled hphase | wake hphase
  | disconnect hphase | disconnectFails hphase | quotaLeft hphase | stopUnseen hphase
  | due hphase | acquire hphase | write hphase | writeFails hphase =>
    refine h.congr rfl rfl rfl ?_ ?_ <;> rw [hphase] <;> rfl
  | @drained d hphase | @releaseIgnored d _ hphase =>
    refine h.congr (drained_nextPacketId _ _) (drained_sent _ _) (drained_inFlight _ _) ?_ ?_ <;>
      rw [hphase] <;> cases d <;> rfl
  | quotaReached hphase | stopSeen hphase | haltPacing hphase | acquireClosed hphase
  | haltAcquiring hphase =>
    refine h.congr rfl rfl rfl ?_ ?_ <;>
      rcases leave_phase _ with hl | ⟨_, hl⟩ <;> rw [hl, hphase] <;> rfl
  | releaseFails | forfeit | joined | timeout => exact absurd rfl (hrunning _)
  | unacknowledged _ hnot | assignNone _ hnot => exact absurd (hqos.symm.trans hnot) nofun
  | insertNone hphase hid => exact absurd ((hlabelled _ _ hphase).symm.trans hid) nofun
  | assign hphase =>
    have hnext := h.next
    have hkeys := h.keys
    have hlt : s.sent < q := hbelow q hquota (by rw [hphase]; trivial)
    rw [hphase] at hnext hkeys
    have hnext' : s.nextPacketId.toNat = s.sent + 0 := hnext
    refine ⟨?_, hkeys⟩
    show (nextId s.nextPacketId).toNat = s.sent + 1
    rw [toNat_nextId (by omega), hnext']
  | @insert p now id hphase hid =>
    have hnext := h.next
    have hkeys := h.keys
    rw [hlabelled p now hphase, Option.some.injEq] at hid
    rw [hphase] at hnext hkeys
    refine ⟨hnext, fun id' hid' ↦ ?_⟩
    show id'.toNat ≤ s.sent + 1
    rcases Finmap.mem_insert.1 hid' with rfl | hmem
    · rw [← hid]
      exact hnext.le
    · exact (hkeys id' hmem).trans (Nat.le_succ _)
  | count hphase =>
    have hnext := h.next
    have hkeys := h.keys
    rw [hphase] at hnext hkeys
    exact ⟨hnext, hkeys⟩

end Publisher

end Bench

end PulsemqCli
