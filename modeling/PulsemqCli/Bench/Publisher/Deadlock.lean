import PulsemqCli.Bench.Publisher.Runs
import PulsemqCli.Bench.Publisher.Window

/-!
# A full window at QoS 2

A QoS 2 message leaves the window with its PUBCOMP, which answers a PUBREL, which only the write
side writes, at the top of its send loop. Once the window is full the write side waits for a permit
instead. Here a publisher is put together with a conforming broker, over two queues; if it has more
messages to send than fit into the window, the two can come to a state in which every message waits
for its PUBREL and the write side waits for a permit.

The broker is as helpful as the protocol allows. It answers each PUBLISH with PUBREC and each PUBREL
with PUBCOMP, in any order, and no packet is lost. So what gets stuck is not the broker's doing.

With a quota that fits the window the write side never waits for a permit (`Frugal`). With one
message more it can: `Flooded` is the window filled before the broker has said anything, and
`Choked` is where the broker has answered all of it and the identifiers are in the channel, with the
write side waiting for a permit that only a PUBREL of its own could free. Then nothing but time
passes (`Choked.of_step`).
-/

namespace PulsemqCli

namespace Bench

namespace Publisher

open Protocol Transition

/-- A conforming broker: how many of the packets written it has received, and the replies it
owes. -/
structure Broker where
  received : ℕ
  owed : List Packet

/-- What a conforming broker replies to a packet. -/
def Broker.replyTo : Packet → Option Packet
  | .publish p =>
    match p.qos, p.packetId with
    | .atLeastOnce, some id => some (.puback ⟨id, .success⟩)
    | .exactlyOnce, some id => some (.pubrec ⟨id, .success⟩)
    | _, _ => none
  | .pubrel a => some (.pubcomp ⟨a.packetId, .success⟩)
  | _ => none

/-- A publisher and its broker. The queue to the broker holds the packets written and not received,
the queue from the broker is the publisher's `inbound`. -/
structure System where
  publisher : State
  broker : Broker

namespace System

/-- The send loop begins. -/
def initial (c : Setting) (clock : ℕ) : System where
  publisher := Publisher.initial c clock
  broker := ⟨0, []⟩

/-- The steps of the two. The broker replies in any order, and nobody stops the run. -/
inductive Step (c : Setting) (s : System) : System → Prop where
  | publisher {p : State} : Unaided c s.publisher p → Step c s { s with publisher := p }
  | receive {p : Packet} : s.publisher.written[s.broker.received]? = some p →
      Step c s { s with broker :=
        ⟨s.broker.received + 1, s.broker.owed ++ (Broker.replyTo p).toList⟩ }
  | reply {p : Packet} {before after : List Packet} : s.broker.owed = before ++ p :: after →
      Step c s {
        publisher := { s.publisher with inbound := s.publisher.inbound ++ [.packet p] }
        broker := ⟨s.broker.received, before ++ after⟩ }

/-- The write side waits for a permit while none is left, nothing is on its way, the broker owes
no reply, and PUBRELs are still to be written. -/
structure Stuck (s : System) : Prop where
  phase : s.publisher.phase = .acquiring
  permits : s.publisher.permits = 0
  outbound : s.publisher.written.length = s.broker.received
  inbound : s.publisher.inbound = []
  owed : s.broker.owed = []
  pubrels : s.publisher.pubrels ≠ []

/-- No run gets stuck. -/
def NeverStuck (c : Setting) (clock : ℕ) : Prop :=
  Always (Step c) (initial c clock) fun s ↦ ¬s.Stuck

end System

variable {c : Setting} {clock : ℕ} {s s' : State}

/-! ### Where the window does not fill -/

/-- The permit of a message that is not counted yet. -/
def Phase.holding : Phase → ℕ
  | .permitted | .assigned _ _ | .writing _ | .written _ | .failing _ _ => 1
  | _ => 0

/-- Each message sent takes at most one permit. -/
def Frugal (c : Setting) (s : State) : Prop :=
  c.window ≤ s.permits + s.sent + s.phase.holding

theorem frugal_initial (c : Setting) (clock : ℕ) : Frugal c (initial c clock) :=
  le_rfl

/-- The ack side only adds permits, and the write side takes one for a message. -/
theorem Frugal.move (h : Frugal c s) (hqos : c.acknowledged = true) (hm : Move c s s') :
    Frugal c s' := by
  unfold Frugal at h ⊢
  cases hm with
  | tick | deliver | raiseStop | dropStop | readEof | readError | complete | completeUnknown
  | close => exact h
  | read =>
    rw [onPacket_permits, onPacket_sent, onPacket_phase]
    exact h
  | freeRefused | free =>
    show c.window ≤ s.permits + 1 + s.sent + s.phase.holding
    omega
  | receive hphase | release hphase | quotaLeft hphase | stopUnseen hphase | due hphase
  | settled hphase | unsettled hphase | wake hphase | disconnect hphase | disconnectFails hphase
  | releaseFails hphase | joined hphase | timeout hphase | assign hphase | insert hphase
  | write hphase | writeFails hphase | insertNone hphase =>
    rw [hphase] at h
    exact h
  | @drained d hphase | @releaseIgnored d _ hphase =>
    rw [hphase] at h
    rw [drained_permits, drained_sent]
    cases d <;> exact h
  | quotaReached hphase | stopSeen hphase | haltPacing hphase | acquireClosed hphase
  | haltAcquiring hphase =>
    rw [hphase] at h
    rcases leave_phase _ with hl | ⟨_, hl⟩ <;> rw [hl] <;> exact h
  | unacknowledged _ hnot | assignNone _ hnot => exact absurd (hqos.symm.trans hnot) nofun
  | acquire hphase _ _ hpermits =>
    rw [hphase] at h
    have h' : c.window ≤ s.permits + s.sent + 0 := h
    show c.window ≤ s.permits - 1 + s.sent + 1
    omega
  | count hphase =>
    rw [hphase] at h
    have h' : c.window ≤ s.permits + s.sent + 1 := h
    show c.window ≤ s.permits + (s.sent + 1) + 0
    omega
  | forfeit hphase =>
    rw [hphase] at h
    have h' : c.window ≤ s.permits + s.sent + 1 := h
    show c.window ≤ (if c.acknowledged then s.permits + 1 else s.permits) + s.sent + 0
    rw [if_pos hqos]
    omega

/-- A broker's reply is one of the surroundings' steps. -/
theorem Move.of_system {s s' : System} (h : s.Step c s') :
    s'.publisher = s.publisher ∨ Move c s.publisher s'.publisher := by
  cases h with
  | publisher h =>
    obtain ⟨a, -, ha⟩ := h
    exact Or.inr (move_of_step ⟨a, ha⟩)
  | receive => exact Or.inl rfl
  | reply => exact Or.inr (.deliver _)

/-- Within a quota that fits into the window there is always a permit left. -/
theorem neverStuck_of_quota (hqos : c.acknowledged = true) {q : ℕ} (hquota : c.quota = some q)
    (hq : q ≤ c.window) : System.NeverStuck c clock := by
  have hall : Always (System.Step c) (System.initial c clock)
      fun s ↦ Frugal c s.publisher ∧ BelowQuota c s.publisher := by
    refine always_of_invariant ⟨frugal_initial c clock, fun _ _ hwithin ↦ hwithin.elim⟩ ?_
    rintro s s' ⟨hfrugal, hbelow⟩ hstep
    rcases Move.of_system hstep with heq | hm
    · rw [heq]
      exact ⟨hfrugal, hbelow⟩
    · exact ⟨hfrugal.move hqos hm, hbelow.move hm⟩
  refine hall.mono fun s h hstuck ↦ ?_
  obtain ⟨hfrugal, hbelow⟩ := h
  have hlt := hbelow q hquota (by rw [hstuck.phase]; trivial)
  unfold Frugal at hfrugal
  rw [hstuck.phase, hstuck.permits] at hfrugal
  have hfrugal' : c.window ≤ 0 + s.publisher.sent + 0 := hfrugal
  omega

/-! ### Where it fills

The run in three parts: the write side fills the window while the broker is slow, the broker answers
every PUBLISH, and the ack side hands all identifiers over. In between, the write side has come to
wait for a permit. -/

/-- `n` messages are written at QoS 2, and the broker has said nothing yet. -/
structure Flooded (c : Setting) (n : ℕ) (s : State) : Prop where
  top : AtTop s
  listening : Listening s
  sent : s.sent = n
  permits : s.permits + n = c.window
  length : s.written.length = n
  written : ∀ p ∈ s.written, ∃ m id, p = .publish m ∧ m.qos = .exactlyOnce ∧ m.packetId = some id

/-- The write side can fill the window before the broker says anything. -/
theorem reaches_flooded (clock : ℕ) (hexactly : c.config.qos = .exactlyOnce)
    (hquota : ∀ q, c.quota = some q → c.window < q) {n : ℕ} (hn : n ≤ c.window) :
    ∃ s, Reaches (Unaided c) (initial c clock) s ∧ Flooded c n s := by
  have hqos : c.acknowledged = true := by
    rw [Setting.acknowledged, hexactly]
    rfl
  induction n with
  | zero =>
    have hnothing : ∀ p, p ∉ (initial c clock).written := fun _ ↦ List.not_mem_nil
    exact ⟨_, .refl, ⟨rfl, rfl, rfl, rfl⟩, ⟨rfl, rfl⟩, rfl, rfl, rfl,
      fun p hp ↦ absurd hp (hnothing p)⟩
  | succ n ih =>
    obtain ⟨s, hreach, h⟩ := ih (by omega)
    have hpermits := h.permits
    have hmore : More c s := fun q hq ↦ by
      have hlt := hquota q hq
      rw [h.sent]
      omega
    have hsend := reaches_sentNext h.top hmore hqos (by omega)
    refine ⟨_, hreach.trans hsend, ⟨rfl, h.top.pubrels, h.top.stop, h.top.closed⟩,
      ⟨h.listening.ack, h.listening.inbound⟩, congrArg (· + 1) h.sent, ?_, ?_, ?_⟩
    · show s.permits - 1 + (n + 1) = c.window
      omega
    · show (s.written ++ [_]).length = n + 1
      rw [List.length_append, h.length]
      rfl
    · intro p hp
      rcases List.mem_append.1 hp with hp | hp
      · exact h.written p hp
      · rw [List.mem_singleton.1 hp]
        exact ⟨_, _, rfl, hexactly, rfl⟩

/-- The write side waits for a permit; of the `n` messages it wrote the broker has received `j`,
whose PUBRELs are still to be written. -/
structure Choked (n j : ℕ) (s : System) : Prop where
  phase : s.publisher.phase = .acquiring
  permits : s.publisher.permits = 0
  closed : s.publisher.closed = false
  listening : Listening s.publisher
  length : s.publisher.written.length = n
  written : ∀ p ∈ s.publisher.written,
    ∃ m id, p = .publish m ∧ m.qos = .exactlyOnce ∧ m.packetId = some id
  received : s.broker.received = j
  owed : s.broker.owed = []
  pubrels : s.publisher.pubrels.length = j

/-- The broker answers one message after another, and nothing comes of it. -/
theorem reaches_choked {n j : ℕ} {s : System} (h : Choked n 0 s) (hj : j ≤ n) :
    ∃ s', Reaches (System.Step c) s s' ∧ Choked n j s' := by
  induction j with
  | zero => exact ⟨s, .refl, h⟩
  | succ j ih =>
    obtain ⟨t, hreach, ht⟩ := ih (by omega)
    have hlt : j < t.publisher.written.length := by
      rw [ht.length]
      omega
    obtain ⟨m, id, hm, hexactly, hid⟩ := ht.written _ (List.getElem_mem hlt)
    have hnext : t.publisher.written[t.broker.received]? = some (.publish m) := by
      rw [ht.received, List.getElem?_eq_getElem hlt, hm]
    have hreply : Broker.replyTo (.publish m) = some (.pubrec ⟨id, .success⟩) := by
      simp only [Broker.replyTo, hexactly, hid]
    let t₁ : System := ⟨t.publisher, j + 1, [.pubrec ⟨id, .success⟩]⟩
    let t₂ : System :=
      ⟨{ t.publisher with inbound := [.packet (.pubrec ⟨id, .success⟩)] }, j + 1, []⟩
    let t₃ : System := ⟨{ t.publisher with pubrels := t.publisher.pubrels ++ [id] }, j + 1, []⟩
    have hreceive : System.Step c t t₁ := by
      have hstep := System.Step.receive (c := c) hnext
      rw [hreply, ht.owed, ht.received] at hstep
      exact hstep
    have hanswer : System.Step c t₁ t₂ := by
      have hstep : System.Step c t₁ _ :=
        .reply (show t₁.broker.owed = [] ++ .pubrec ⟨id, .success⟩ :: [] from rfl)
      rw [show t₁.publisher.inbound = [] from ht.listening.inbound] at hstep
      exact hstep
    have hread : System.Step c t₂ t₃ := by
      refine .publisher ⟨.acknowledge, trivial, ?_⟩
      simp only [step, acknowledge, t₂, ht.listening.ack, onPacket, ← ht.listening.inbound]
      rfl
    refine ⟨t₃, hreach.trans (.head hreceive (.head hanswer (.single hread))), ht.phase,
      ht.permits, ht.closed, ⟨ht.listening.ack, ht.listening.inbound⟩, ht.length, ht.written, rfl,
      rfl, ?_⟩
    show (t.publisher.pubrels ++ [id]).length = j + 1
    rw [List.length_append, ht.pubrels]
    rfl

/-- The publisher's unaided steps are steps of the two. -/
theorem reaches_system {p p' : State} {b : Broker} (h : Reaches (Unaided c) p p') :
    Reaches (System.Step c) ⟨p, b⟩ ⟨p', b⟩ := by
  induction h with
  | refl => exact .refl
  | tail _ hstep ih => exact ih.tail (.publisher hstep)

/-- **With more messages than the window takes, the two can get stuck.** -/
theorem can_choke (clock : ℕ) (hexactly : c.config.qos = .exactlyOnce)
    (hquota : ∀ q, c.quota = some q → c.window < q) :
    Can (System.Step c) (System.initial c clock) (Choked c.window c.window) := by
  obtain ⟨s, hreach, h⟩ := reaches_flooded clock hexactly hquota le_rfl
  have hmore : More c s := fun q hq ↦ by
    rw [h.sent]
    exact hquota q hq
  have hpermits := h.permits
  have hchoked : Choked c.window 0 ⟨parked c s, 0, []⟩ :=
    ⟨rfl, show s.permits = 0 by omega, h.top.closed, ⟨h.listening.ack, h.listening.inbound⟩,
      h.length, h.written, rfl, rfl, congrArg List.length h.top.pubrels⟩
  obtain ⟨s', hreach', h'⟩ := reaches_choked (c := c) hchoked le_rfl
  exact ⟨s', ((reaches_system (hreach.trans (reaches_parked h.top hmore))).trans hreach'), h'⟩

theorem Choked.stuck {s : System} (h : Choked c.window c.window s) : s.Stuck where
  phase := h.phase
  permits := h.permits
  outbound := h.length.trans h.received.symm
  inbound := h.listening.inbound
  owed := h.owed
  pubrels hnil := by
    have hlength := h.pubrels
    have hpos := c.window_pos
    rw [hnil] at hlength
    exact absurd hlength (by simpa using hpos.ne)

/-- **A QoS 2 publisher never gets stuck exactly if all of its messages fit into the window.** -/
theorem neverStuck_iff (hexactly : c.config.qos = .exactlyOnce) :
    System.NeverStuck c clock ↔ ∃ q, c.quota = some q ∧ q ≤ c.window := by
  constructor
  · intro h
    by_contra hnot
    obtain ⟨s, hreach, hs⟩ := can_choke clock hexactly fun q hq ↦
      not_le.1 fun hle ↦ hnot ⟨q, hq, hle⟩
    exact h s hreach hs.stuck
  · rintro ⟨q, hquota, hq⟩
    refine neverStuck_of_quota ?_ hquota hq
    rw [Setting.acknowledged, hexactly]
    rfl

/-- Ten messages in a window of a hundred. -/
theorem neverStuck_iff_ten : System.NeverStuck (alone .exactlyOnce (.count 10) 100) 0 :=
  (neverStuck_iff rfl).2 ⟨10, by decide, by decide⟩

/-! ### What is stuck stays stuck -/

/-- A step of a stuck publisher lets time pass. -/
theorem Choked.of_step {s s' : System} (hqos : c.acknowledged = true)
    (h : Choked c.window c.window s) (hstep : s.Step c s') : Choked c.window c.window s' := by
  cases hstep with
  | publisher hstep =>
    obtain ⟨a, ha, hstep⟩ := hstep
    cases a with
    | tick nanos =>
      cases hstep
      exact ⟨h.phase, h.permits, h.closed, ⟨h.listening.ack, h.listening.inbound⟩, h.length,
        h.written, h.received, h.owed, h.pubrels⟩
    | advance =>
      simp [step, advance, h.phase, hqos, h.closed, h.permits] at hstep
    | acknowledge =>
      simp [step, acknowledge, h.listening.ack, h.listening.inbound] at hstep
    | timeout => simp [step, timeout, h.phase] at hstep
    | _ => exact ha.elim
  | receive hnext =>
    have hlength : s.publisher.written.length ≤ s.broker.received := by
      rw [h.length, h.received]
    rw [List.getElem?_eq_none hlength] at hnext
    cases hnext
  | reply howed =>
    rw [h.owed] at howed
    exact absurd howed (by simp)

/-- **Two messages in a window of one.** The second waits for the first, which waits for a PUBREL
the write side never comes to write. -/
theorem not_neverStuck_two :
    ¬System.NeverStuck (alone .exactlyOnce (.count 2) 1) 0 ∧
      Can (System.Step (alone .exactlyOnce (.count 2) 1))
        (System.initial (alone .exactlyOnce (.count 2) 1) 0)
        fun s ↦ Always (System.Step (alone .exactlyOnce (.count 2) 1)) s System.Stuck := by
  have hquota : ∀ q, (alone .exactlyOnce (.count 2) 1).quota = some q →
      (alone .exactlyOnce (.count 2) 1).window < q := by
    intro q hq
    obtain rfl : 2 = q := Option.some.inj hq
    decide
  obtain ⟨s, hreach, hs⟩ := can_choke 0 rfl hquota
  refine ⟨fun h ↦ h s hreach hs.stuck, s, hreach, ?_⟩
  exact (always_of_invariant hs fun _ _ h hstep ↦ h.of_step (by decide) hstep).mono
    fun _ h ↦ h.stuck

end Publisher

end Bench

end PulsemqCli
