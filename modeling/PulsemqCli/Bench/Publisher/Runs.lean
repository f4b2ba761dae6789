import PulsemqCli.Bench.Publisher

/-!
# Runs of a publisher, a message at a time

What the two sides can do when nothing disturbs them: `sends` takes the write side once around its
send loop, and `acknowledges` takes an acknowledgement from the broker to the window.

These runs are the material of every statement that something can happen. `Unaided` steps are the
write side's own and time, and `Served` ones are those together with a broker that answers; a run in
either is a run, and the lemmas are stated for the narrowest kind that they need.

One time around the loop ends at the top of the loop, with one message more, one permit less, and
the clock past the message's deadline. So these lemmas can be iterated, and a run of any number of
messages is an induction on it.
-/

namespace PulsemqCli

namespace Bench

namespace Publisher

open Protocol Transition

variable {c : Setting} {s : State}

/-- A step of one of the two sides, with time passing but nothing from outside. -/
def Act.Unaided : Act → Prop
  | .tick _ | .advance | .acknowledge | .timeout => True
  | _ => False

/-- An unaided step. -/
def Unaided (c : Setting) (s s' : State) : Prop :=
  ∃ a, Act.Unaided a ∧ step c s a = some s'

/-- A step in which nobody stops the run. -/
def Act.Served : Act → Prop
  | .raiseStop | .dropStop => False
  | _ => True

/-- A step of one of the two sides or of the broker. -/
def Served (c : Setting) (s s' : State) : Prop :=
  ∃ a, Act.Served a ∧ step c s a = some s'

theorem Act.Unaided.served {a : Act} (h : a.Unaided) : a.Served := by
  cases a with
  | tick | advance | acknowledge | timeout => trivial
  | _ => exact h.elim

theorem served_of_unaided {t : State} (h : Reaches (Unaided c) s t) : Reaches (Served c) s t :=
  Relation.ReflTransGen.mono (fun _ _ ⟨a, hunaided, ha⟩ ↦ ⟨a, hunaided.served, ha⟩) _ _ h

theorem reaches_of_served {t : State} (h : Reaches (Served c) s t) : Reaches (Step c) s t :=
  Relation.ReflTransGen.mono (fun _ _ ⟨a, _, ha⟩ ↦ ⟨a, ha⟩) _ _ h

theorem reaches_of_unaided {t : State} (h : Reaches (Unaided c) s t) : Reaches (Step c) s t :=
  reaches_of_served (served_of_unaided h)

/-- One unaided step of a run. -/
theorem unaided_step {t u : State} {a : Act} (h : step c s a = some t) (ha : Act.Unaided a)
    (h' : Reaches (Unaided c) t u) : Reaches (Unaided c) s u :=
  .head ⟨a, ha, h⟩ h'

/-- One served step of a run. -/
theorem served_step {t u : State} (a : Act) (h : step c s a = some t) (ha : Act.Served a)
    (h' : Reaches (Served c) t u) : Reaches (Served c) s u :=
  .head ⟨a, ha, h⟩ h'

/-- The write side stands at the top of the send loop with nothing to release, and no end of the
run is in sight. -/
structure AtTop (s : State) : Prop where
  phase : s.phase = .draining .top
  pubrels : s.pubrels = []
  stop : s.stop = false
  closed : s.closed = false

/-- There is another message to send. -/
def More (c : Setting) (s : State) : Prop :=
  ∀ q, c.quota = some q → s.sent < q

/-- The time of the next message. -/
def dueTime (c : Setting) (s : State) : ℕ :=
  s.clock + (c.deadline s.sent).getD 0

/-- The write side waiting for a permit for its next message. -/
def parked (c : Setting) (s : State) : State :=
  { s with clock := dueTime c s, phase := .acquiring }

/-- The write side about to enter its next message into the map. -/
def entering (c : Setting) (s : State) : State :=
  let s' : State := { s with clock := dueTime c s, permits := s.permits - 1 }
  { s' with
    nextPacketId := nextId s.nextPacketId
    phase := .assigned (message c s' (some (nextId s.nextPacketId))) (dueTime c s) }

/-- The message that is sent next. -/
def nextMessage (c : Setting) (s : State) : Publish :=
  message c { s with clock := dueTime c s } (some (nextId s.nextPacketId))

/-- Both sides after the next message was sent. -/
def sentNext (c : Setting) (s : State) : State :=
  { s with
    clock := dueTime c s
    permits := s.permits - 1
    nextPacketId := nextId s.nextPacketId
    inFlight := s.inFlight.insert (nextId s.nextPacketId) (dueTime c s)
    written := s.written ++ [.publish (nextMessage c s)]
    published := s.published + 1
    bytesSent := s.bytesSent + (nextMessage c s).payload.length
    sent := s.sent + 1
    phase := .draining .top }

/-- From the top of the loop the write side gets to the window. -/
theorem reaches_parked (h : AtTop s) (hmore : More c s) : Reaches (Unaided c) s (parked c s) := by
  have hquota : c.quota.any (· ≤ s.sent) = false := by
    rcases hq : c.quota with - | q
    · rfl
    · simpa using hmore q hq
  have hdue : (c.deadline s.sent).all (· ≤ dueTime c s) = true := by
    unfold dueTime
    rcases c.deadline s.sent with - | t
    · rfl
    · simp
  let s₁ : State := { s with phase := .checkingStop }
  let s₂ : State := { s with phase := .pacing }
  let s₃ : State := { s with clock := dueTime c s, phase := .pacing }
  have hdrained : step c s .advance = some (drained s .top) := by
    simp only [step, advance, h.phase, h.pubrels]
  have hbelow : step c (drained s .top) .advance = some s₁ :=
    if_neg (by rw [show (drained s .top).sent = s.sent from rfl, hquota]; exact Bool.false_ne_true)
  have hunstopped : step c s₁ .advance = some s₂ := if_neg (by simp [s₁, h.stop])
  have htick : step c s₂ (.tick ((c.deadline s.sent).getD 0)) = some s₃ := rfl
  have hpaced : step c s₃ .advance = some (parked c s) := if_pos hdue
  exact unaided_step hdrained trivial (unaided_step hbelow trivial
    (unaided_step hunstopped trivial (unaided_step htick trivial
      (unaided_step hpaced trivial .refl))))

/-- With a permit at hand it gets to the map. -/
theorem reaches_entering_of_parked (hclosed : s.closed = false) (hqos : c.acknowledged = true)
    (hpermits : s.permits ≠ 0) : Reaches (Unaided c) (parked c s) (entering c s) := by
  let s₁ : State := { parked c s with permits := s.permits - 1, phase := .permitted }
  have hpermit : step c (parked c s) .advance = some s₁ := by
    simp only [step, advance, parked, hqos, hclosed, hpermits, s₁]
    rfl
  have hassign : step c s₁ .advance = some (entering c s) := if_pos hqos
  exact unaided_step hpermit trivial (unaided_step hassign trivial .refl)

theorem reaches_entering (h : AtTop s) (hmore : More c s) (hqos : c.acknowledged = true)
    (hpermits : s.permits ≠ 0) : Reaches (Unaided c) s (entering c s) :=
  (reaches_parked h hmore).trans (reaches_entering_of_parked h.closed hqos hpermits)

/-- From the map it gets back to the top. -/
theorem reaches_sentNext_of_entering (c : Setting) (s : State) :
    Reaches (Unaided c) (entering c s) (sentNext c s) := by
  let m := nextMessage c s
  let s₁ : State := { entering c s with
    inFlight := s.inFlight.insert (nextId s.nextPacketId) (dueTime c s)
    phase := .writing m }
  let s₂ : State := { s₁ with
    written := s.written ++ [.publish m]
    phase := .written m }
  have hinsert : step c (entering c s) .advance = some s₁ := rfl
  have hwrite : step c s₁ .advance = some s₂ := rfl
  have hcount : step c s₂ .advance = some (sentNext c s) := rfl
  exact unaided_step hinsert trivial (unaided_step hwrite trivial
    (unaided_step hcount trivial .refl))

/-- **Once around the send loop.** -/
theorem reaches_sentNext (h : AtTop s) (hmore : More c s) (hqos : c.acknowledged = true)
    (hpermits : s.permits ≠ 0) : Reaches (Unaided c) s (sentNext c s) :=
  (reaches_entering h hmore hqos hpermits).trans (reaches_sentNext_of_entering c s)

/-- Without acknowledgements, the message that is sent next. -/
def nextUnacknowledged (c : Setting) (s : State) : Publish :=
  message c { s with clock := dueTime c s } none

/-- Without acknowledgements, both sides after the next message was sent. -/
def sentUnacknowledged (c : Setting) (s : State) : State :=
  { s with
    clock := dueTime c s
    written := s.written ++ [.publish (nextUnacknowledged c s)]
    published := s.published + 1
    bytesSent := s.bytesSent + (nextUnacknowledged c s).payload.length
    sent := s.sent + 1
    phase := .draining .top }

/-- **Once around the send loop, without acknowledgements.** -/
theorem reaches_sentUnacknowledged (h : AtTop s) (hmore : More c s)
    (hqos : c.acknowledged = false) : Reaches (Unaided c) s (sentUnacknowledged c s) := by
  refine (reaches_parked h hmore).trans ?_
  let m := nextUnacknowledged c s
  let s₁ : State := { parked c s with phase := .permitted }
  let s₂ : State := { s₁ with phase := .writing m }
  let s₃ : State := { s₂ with written := s.written ++ [.publish m], phase := .written m }
  have hpermitted : step c (parked c s) .advance = some s₁ := by
    simp only [step, advance, parked, hqos, s₁]
    rfl
  have hassign : step c s₁ .advance = some s₂ := if_neg (Bool.eq_false_iff.1 hqos)
  have hwrite : step c s₂ .advance = some s₃ := rfl
  have hcount : step c s₃ .advance = some (sentUnacknowledged c s) := rfl
  exact unaided_step hpermitted trivial (unaided_step hassign trivial
    (unaided_step hwrite trivial (unaided_step hcount trivial .refl)))

/-- **With a permit at hand, if it takes one, the write side gets to write its next message**, and
dates it with the time the message is due. -/
theorem reaches_published (h : AtTop s) (hmore : More c s)
    (hpermits : c.acknowledged = true → s.permits ≠ 0) :
    ∃ t p, Reaches (Unaided c) s t ∧ .publish p ∈ t.written ∧
      p.payload = (nextUnacknowledged c s).payload := by
  by_cases hqos : c.acknowledged = true
  · exact ⟨sentNext c s, nextMessage c s, reaches_sentNext h hmore hqos (hpermits hqos),
      List.mem_append_right _ (List.mem_singleton_self _), rfl⟩
  · exact ⟨sentUnacknowledged c s, nextUnacknowledged c s,
      reaches_sentUnacknowledged h hmore (Bool.eq_false_iff.2 hqos),
      List.mem_append_right _ (List.mem_singleton_self _), rfl⟩

/-- The only publisher of a run without a rate. -/
def alone (qos : QoS) (stop : Stop) (inflight : ℕ) : Setting where
  index := 0
  config := {
    publishers := 1
    subscribers := 0
    topicPrefix := "bench"
    qos := qos
    payloadSize := 16
    stop := stop
    rate := none
    inflight := inflight
    warmup := 0
    drain := 0 }
  receiveMaximum := none
  baseline := 0
  warmupUntil := 0
  deadline _ := none

/-! ### Acknowledgements -/

/-- The ack side waits for the broker, which has nothing more to say. -/
structure Listening (s : State) : Prop where
  ack : s.ack = .reading
  inbound : s.inbound = []

/-- Both sides after the success of the message sent under `id`, at `sentAt`, was read. -/
def completed (c : Setting) (s : State) (id : PacketId) (sentAt : ℕ) : State :=
  { s with
    permits := s.permits + 1
    inFlight := s.inFlight.erase id
    acknowledged := s.acknowledged + 1
    samples := if c.warmupUntil ≤ sentAt then s.samples ++ [elapsed s sentAt] else s.samples }

/-- The broker completes a message, and the ack side hears it. -/
theorem reaches_completed {id : PacketId} {sentAt : ℕ} {p : Packet} (h : Listening s)
    (hlookup : s.inFlight.lookup id = some sentAt)
    (hp : p = .puback ⟨id, .success⟩ ∨ p = .pubcomp ⟨id, .success⟩) :
    Reaches (Served c) s (completed c s id sentAt) := by
  let s₁ : State := { s with inbound := [.packet p] }
  let s₂ : State := { s with ack := .completing id .success }
  let s₃ : State := { s with inFlight := s.inFlight.erase id, ack := .freeing sentAt .success }
  have hdeliver : step c s (.deliver (.packet p)) = some s₁ := by
    simp only [step, h.inbound, List.nil_append, s₁]
  have hread : step c s₁ .acknowledge = some s₂ := by
    simp only [step, acknowledge, s₁, h.ack]
    rcases hp with rfl | rfl <;> simp only [onPacket, completeAck, s₂, ← h.inbound] <;> rfl
  have htake : step c s₂ .acknowledge = some s₃ := by
    simp only [step, acknowledge, s₂, hlookup]
    rfl
  have hfree : step c s₃ .acknowledge = some (completed c s id sentAt) := by
    simp only [step, acknowledge, s₃, completed, ← h.ack]
    rfl
  exact served_step _ hdeliver trivial (served_step _ hread trivial
    (served_step _ htake trivial (served_step _ hfree trivial .refl)))

/-- The broker receives a message at QoS 2, and the write side releases it. -/
theorem reaches_released (id : PacketId) (h : Listening s) (htop : AtTop s) :
    Reaches (Served c) s { s with written := s.written ++ [.pubrel ⟨id, .success⟩] } := by
  let s₁ : State := { s with inbound := [.packet (.pubrec ⟨id, .success⟩)] }
  let s₂ : State := { s with pubrels := [id] }
  let s₃ : State := { s with phase := .releasing .top id }
  have hdeliver : step c s (.deliver (.packet (.pubrec ⟨id, .success⟩))) = some s₁ := by
    simp only [step, h.inbound, List.nil_append, s₁]
  have hread : step c s₁ .acknowledge = some s₂ := by
    simp only [step, acknowledge, s₁, s₂, h.ack, onPacket, htop.pubrels, ← h.inbound]
    rfl
  have hreceive : step c s₂ .advance = some s₃ := by
    simp only [step, advance, s₂, s₃, htop.phase, ← htop.pubrels]
  have hrelease : step c s₃ .advance =
      some { s with written := s.written ++ [.pubrel ⟨id, .success⟩] } := by
    simp only [step, advance, s₃, ← htop.phase]
  exact served_step _ hdeliver trivial (served_step _ hread trivial
    (served_step _ hreceive trivial (served_step _ hrelease trivial .refl)))

end Publisher

end Bench

end PulsemqCli
