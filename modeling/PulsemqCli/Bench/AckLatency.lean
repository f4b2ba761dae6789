import PulsemqCli.Bench.Publisher.Ledger
import PulsemqCli.Bench.Quota
import PulsemqCli.Bench.Transit
import PulsemqCli.Bench.Termination
import PulsemqCli.Library.History

/-!
# Ack samples are times from a send to its acknowledgement

A publisher leaves a mark whenever it starts the clock of a message, reads a terminal
acknowledgement, takes the send time out of the map, and is done with it. The marks alone tell which
send an acknowledgement belongs to. The ack samples that are reported are the times between the two,
one for each acknowledgement that succeeds, of a send after the warmup.

Marks are written by an observer, who sees the steps of a publisher but none of its variables.
`outstandingSince` and `inHand` say what this observer knows: since when a message with some
identifier has been on its way, and which acknowledgement the ack side is dealing with. `Measured`
is the invariant that ties this to the variables. The map holds the send times that the marks tell,
and the samples are those of the marks that succeeded.

The send time is read from the clock where the message is built, and goes both into the header of
its payload and, at QoS 1 and 2, into the map. That they agree is `DatedAt`, so a sample can be
checked against the packet on the wire.

The source subtracts two times and keeps the difference as a `u64` of nanoseconds. Up to there the
model is exact without a condition: a `recorded` sample is the difference modulo 2^64. The reading
as a time is right while the clock has not run for 2^64 nanoseconds, and this is what
`Mark.Between.recorded_eq` uses.

Both ends of `acks_exact` are about whole runs. `LappedRun` pairs a run of the benchmark with the
marks of its publishers, and `PublisherTask.Measured` follows a task beyond its last step, into the
result that the report collects.
-/

namespace PulsemqCli

namespace Bench

namespace Publisher

open Protocol

variable {c : Setting} {s s' : State} {a : Act}

/-! ### Marks

A mark is made by the act and the state it is made in, so it can say what was read or taken there.
The clock is in the marks of the two ends alone: where a message's clock is started, and where it is
stopped. An act that is none of these leaves no mark. -/

/-- What is seen of the send times of a publisher. -/
inductive Mark where
  /-- The message is in flight with its send time. -/
  | started (p : Publish) (now : ℕ)
  /-- The message was not written, and is in flight no more. -/
  | dropped (id : PacketId)
  /-- An acknowledgement that ends a message's flow is read. -/
  | answered (id : PacketId) (code : ReasonCode)
  /-- The send time is taken out of the map. -/
  | taken (id : PacketId) (code : ReasonCode) (sentAt : ℕ)
  /-- The acknowledgement is dealt with. -/
  | stopped (code : ReasonCode) (sentAt clock : ℕ)
  deriving DecidableEq

/-- The mark of an act. -/
def mark (s : State) : Act → Option Mark
  | .advance =>
    match s.phase with
    | .assigned p now => p.packetId.map fun _ ↦ .started p now
    | .failing p _ => p.packetId.map .dropped
    | _ => none
  | .acknowledge =>
    match s.ack with
    | .reading =>
      match s.inbound with
      | .packet p :: _ => (terminal p).map fun x ↦ .answered x.1 x.2
      | _ => none
    | .completing id code => (s.inFlight.lookup id).map (.taken id code)
    | .freeing sentAt code => some (.stopped code sentAt s.clock)
    | _ => none
  | _ => none

/-! ### What the marks tell

All three are folds over the marks, newest last. `outstandingSince` follows one identifier; `answer`
and `inHand` follow the ack side, which has one acknowledgement at a time. The sample of a mark is
what it should be, and `recorded` what a `u64` keeps of it. -/

/-- One mark more, of the send time that an identifier is outstanding with. -/
def outstandingStep (id : PacketId) (since : Option ℕ) : Mark → Option ℕ
  | .started p now => if p.packetId = some id then some now else since
  | .dropped id' | .taken id' _ _ => if id' = id then none else since
  | _ => since

/-- The send time that an identifier is outstanding with. -/
def outstandingSince (id : PacketId) (es : List Mark) : Option ℕ :=
  es.foldl (outstandingStep id) none

/-- One mark more, of the acknowledgement that was read last and not dealt with. -/
def answerStep (answer : Option (PacketId × ReasonCode)) : Mark → Option (PacketId × ReasonCode)
  | .answered id code => some (id, code)
  | .taken .. => none
  | _ => answer

/-- The acknowledgement that was read last, if its send time was not taken yet. -/
def answer (es : List Mark) : Option (PacketId × ReasonCode) :=
  es.foldl answerStep none

/-- One mark more, of the send time that is in hand. -/
def inHandStep (inHand : Option (ReasonCode × ℕ)) : Mark → Option (ReasonCode × ℕ)
  | .taken _ code sentAt => some (code, sentAt)
  | .stopped .. => none
  | _ => inHand

/-- The send time that was taken last, if it was not dealt with yet. -/
def inHand (es : List Mark) : Option (ReasonCode × ℕ) :=
  es.foldl inHandStep none

/-- The message holds the time `now` in its header. -/
def DatedAt (baseline now : ℕ) (p : Publish) : Prop :=
  ∃ header, Payload.decode p.payload = some header ∧
    header.elapsedNs = .ofNat (now - baseline)

/-- Each mark follows from those before it: a send time is that of the message's header, it is taken
by an acknowledgement of the identifier that is outstanding with it, and dealt with once. -/
def Explained (baseline : ℕ) (before : List Mark) : Mark → Prop
  | .started p now => DatedAt baseline now p
  | .taken id code sentAt => answer before = some (id, code) ∧
      outstandingSince id before = some sentAt
  | .stopped code sentAt clock => inHand before = some (code, sentAt) ∧ sentAt ≤ clock
  | _ => True

/-- The sample that a mark gives: the time since the send, if the acknowledgement succeeds and the
send was not in the warmup. -/
def Mark.sample (warmupUntil : ℕ) : Mark → Option ℕ
  | .stopped code sentAt clock =>
    if code.isError = false ∧ warmupUntil ≤ sentAt then some (clock - sentAt) else none
  | _ => none

/-- The sample as the ack side records it, in a `u64`. -/
def Mark.recorded (warmupUntil : ℕ) (m : Mark) : Option ℕ :=
  (m.sample warmupUntil).map (· % 2 ^ 64)

/-- The instants of a mark that gives a sample lie between `first` and `last`. -/
def Mark.Between (first last : ℕ) : Mark → Prop
  | .stopped _ sentAt clock => first ≤ sentAt ∧ clock ≤ last
  | _ => True

/-- The acknowledgement counts. -/
def Mark.succeeds : Mark → Bool
  | .stopped code _ _ => !code.isError
  | _ => false

/-! ### What a publisher measures

`Measured` has a part for each variable that a send time passes through: the message that is
assigned, the map, the acknowledgement in hand, the samples. A step either leaves all of them alone
(`Leaves`), or it makes one mark and moves one send time on; there is a lemma for each of these, and
`Measured.step` goes through the acts. -/

/-- An instant of the run so far. -/
def Past (c : Setting) (s : State) (t : ℕ) : Prop :=
  c.baseline ≤ t ∧ t ≤ s.clock

/-- What was in the past stays there. -/
theorem Past.mono {t : ℕ} (h : Past c s t) (hle : s.clock ≤ s'.clock) : Past c s' t :=
  ⟨h.1, h.2.trans hle⟩

/-- The publisher's variables are what its marks tell. -/
structure Measured (c : Setting) (es : List Mark) (s : State) : Prop where
  begun : c.baseline ≤ s.clock
  inFlight : ∀ id, s.inFlight.lookup id = outstandingSince id es
  past : ∀ id sentAt, s.inFlight.lookup id = some sentAt → Past c s sentAt
  assigned : ∀ p now, s.phase = .assigned p now → DatedAt c.baseline now p ∧ Past c s now
  completing : ∀ id code, s.ack = .completing id code → answer es = some (id, code)
  freeing : ∀ sentAt code, s.ack = .freeing sentAt code →
    inHand es = some (code, sentAt) ∧ Past c s sentAt
  explained : Transition.Throughout (Explained c.baseline) es
  between : ∀ m ∈ es, m.Between c.baseline s.clock
  samples : s.samples = es.filterMap (Mark.recorded c.warmupUntil)
  acknowledged : s.acknowledged = es.countP Mark.succeeds

/-- Before the first message nothing is marked and nothing measured. -/
theorem measured_initial {clock : ℕ} (h : c.baseline ≤ clock) (stop : Bool) :
    Measured c [] { initial c clock with stop := stop } where
  begun := h
  inFlight := fun _ ↦ Finmap.lookup_empty _
  past := fun id _ h ↦ (by cases h.symm.trans (Finmap.lookup_empty id))
  assigned := fun _ _ h ↦ (by cases h)
  completing := fun _ _ h ↦ (by cases h)
  freeing := fun _ _ h ↦ (by cases h)
  explained := Transition.throughout_nil
  between := fun _ h ↦ absurd h List.not_mem_nil
  samples := rfl
  acknowledged := rfl

/-- As the clock goes on, a mark stays between its start and now. -/
theorem Mark.Between.mono {first last last' : ℕ} {m : Mark} (h : m.Between first last)
    (hle : last ≤ last') : m.Between first last' := by
  cases m with
  | stopped => exact ⟨h.1, h.2.trans hle⟩
  | _ => trivial

/-- What leaves the send times, the acknowledgement in hand and the samples alone. -/
structure Leaves (s s' : State) : Prop where
  inFlight : s'.inFlight = s.inFlight
  ack : s'.ack = s.ack ∨ (∀ id code, s'.ack ≠ .completing id code) ∧
    ∀ sentAt code, s'.ack ≠ .freeing sentAt code
  samples : s'.samples = s.samples
  acknowledged : s'.acknowledged = s.acknowledged
  clock : s.clock ≤ s'.clock

/-- A step that leaves the send times alone keeps the measurement, as long as a message it assigns
is dated. -/
theorem Measured.leaves {es : List Mark} (h : Measured c es s) (hleaves : Leaves s s')
    (hassigned : ∀ p now, s'.phase = .assigned p now → DatedAt c.baseline now p ∧ Past c s' now) :
    Measured c es s' where
  begun := h.begun.trans hleaves.clock
  inFlight := by
    rw [hleaves.inFlight]
    exact h.inFlight
  past := by
    rw [hleaves.inFlight]
    exact fun id sentAt hsent ↦ (h.past id sentAt hsent).mono hleaves.clock
  assigned := hassigned
  completing := by
    rcases hleaves.ack with hsame | ⟨hnone, -⟩
    · rw [hsame]
      exact h.completing
    · exact fun id code hack ↦ absurd hack (hnone id code)
  freeing := by
    rcases hleaves.ack with hsame | ⟨-, hnone⟩
    · rw [hsame]
      intro sentAt code hack
      obtain ⟨hinHand, hle⟩ := h.freeing sentAt code hack
      exact ⟨hinHand, hle.mono hleaves.clock⟩
    · exact fun sentAt code hack ↦ absurd hack (hnone sentAt code)
  explained := h.explained
  between := fun m hm ↦ (h.between m hm).mono hleaves.clock
  samples := hleaves.samples.trans h.samples
  acknowledged := hleaves.acknowledged.trans h.acknowledged

/-- A step without a mark. -/
theorem Measured.unmarked {es : List Mark} (h : Measured c es s) (hmark : mark s a = none)
    (hleaves : Leaves s s')
    (hassigned : ∀ p now, s'.phase = .assigned p now → DatedAt c.baseline now p ∧ Past c s' now) :
    Measured c (es ++ (mark s a).toList) s' := by
  rw [hmark, Option.toList_none, List.append_nil]
  exact h.leaves hleaves hassigned

/-- While the clock fits in a `u64`, a sample is recorded as it is. -/
theorem Mark.Between.recorded_eq {first last : ℕ} {m : Mark} (h : m.Between first last)
    (hfits : last - first < 2 ^ 64) (warmupUntil : ℕ) :
    m.recorded warmupUntil = m.sample warmupUntil := by
  cases m with
  | stopped code sentAt clock =>
    have hlt : clock - sentAt < 2 ^ 64 := by
      obtain ⟨hfirst, hlast⟩ := h
      omega
    rw [Mark.recorded, Mark.sample]
    split
    · rw [Option.map_some, Nat.mod_eq_of_lt hlt]
    · rfl
  | _ => rfl

/-- While the clock fits in a `u64`, the samples are the times that the marks tell. -/
theorem Measured.samples_eq {es : List Mark} (h : Measured c es s)
    (hfits : s.clock - c.baseline < 2 ^ 64) :
    s.samples = es.filterMap (Mark.sample c.warmupUntil) :=
  h.samples.trans (List.filterMap_congr fun m hm ↦ (h.between m hm).recorded_eq hfits _)

/-- A step that takes the write side elsewhere than to a message that is assigned. -/
theorem Measured.passed {es : List Mark} (h : Measured c es s) (hmark : mark s a = none)
    (hleaves : Leaves s s') (hphase : ∀ p now, s'.phase ≠ .assigned p now) :
    Measured c (es ++ (mark s a).toList) s' :=
  h.unmarked hmark hleaves fun p now hassigned ↦ absurd hassigned (hphase p now)

/-- Draining the channel leaves the send times alone. -/
theorem leaves_drained (s : State) (d : Drain) : Leaves s (drained s d) where
  inFlight := drained_inFlight s d
  ack := .inl (drained_ack s d)
  samples := by cases d <;> rfl
  acknowledged := by cases d <;> rfl
  clock := by cases d <;> exact le_rfl

/-- After a drain, no message waits for the writer. -/
theorem drained_phase_ne_assigned (s : State) (d : Drain) (p : Publish) (now : ℕ) :
    (drained s d).phase ≠ .assigned p now := by
  cases d <;> exact Phase.noConfusion

theorem leave_phase_ne_assigned (s : State) (p : Publish) (now : ℕ) :
    (leave s).phase ≠ .assigned p now := by
  rcases leave_phase s with h | ⟨deadline, h⟩
  all_goals
    rw [h]
    exact Phase.noConfusion

/-- After a write that fails, no message waits for the writer. -/
theorem fail_phase_ne_assigned {e : MqttError} (h : fail c e s = some s') (p : Publish) (now : ℕ) :
    s'.phase ≠ .assigned p now := by
  unfold fail at h
  cases hphase : s.phase with
  | releasing d id =>
    rw [hphase] at h
    cases d <;> cases h <;> exact Phase.noConfusion
  | writing | disconnecting =>
    rw [hphase] at h
    cases h
    exact Phase.noConfusion
  | _ =>
    rw [hphase] at h
    cases h

/-- The message that is built is dated. -/
theorem datedAt_message (c : Setting) (s : State) (id : Option PacketId) :
    DatedAt c.baseline s.clock (message c s id) :=
  ⟨_, Payload.decode_build _ _, rfl⟩

section Marked

variable {es : List Mark}

/-- What one more mark tells of the messages on their way. -/
theorem outstandingSince_snoc (id : PacketId) (es : List Mark) (m : Mark) :
    outstandingSince id (es ++ [m]) = outstandingStep id (outstandingSince id es) m := by
  rw [outstandingSince, List.foldl_append]
  rfl

/-- What one more mark tells of the acknowledgement that was read. -/
theorem answer_snoc (es : List Mark) (m : Mark) :
    answer (es ++ [m]) = answerStep (answer es) m := by
  rw [answer, List.foldl_append]
  rfl

/-- What one more mark tells of the message that was taken out. -/
theorem inHand_snoc (es : List Mark) (m : Mark) :
    inHand (es ++ [m]) = inHandStep (inHand es) m := by
  rw [inHand, List.foldl_append]
  rfl

/-- A mark that is no sample's. -/
theorem filterMap_recorded_snoc {m : Mark} {warmupUntil : ℕ}
    (hm : m.recorded warmupUntil = none) :
    (es ++ [m]).filterMap (Mark.recorded warmupUntil) =
      es.filterMap (Mark.recorded warmupUntil) := by
  rw [List.filterMap_append, List.filterMap_cons, hm]
  exact List.append_nil _

/-- A mark between the same two times is added. -/
theorem forall_between_snoc {m : Mark} {first last : ℕ} (h : ∀ m ∈ es, m.Between first last)
    (hm : m.Between first last) : ∀ m' ∈ es ++ [m], m'.Between first last := by
  intro m' hm'
  rcases List.mem_append.1 hm' with hm' | hm'
  · exact h m' hm'
  · rw [List.mem_singleton.1 hm']
    exact hm

/-- **A message goes in flight with the time in its header.** -/
theorem Measured.started {p : Publish} {now : ℕ} {id : PacketId} (h : Measured c es s)
    (hphase : s.phase = .assigned p now) (hid : p.packetId = some id) :
    Measured c (es ++ [.started p now])
      { s with inFlight := s.inFlight.insert id now, phase := .writing p } where
  begun := h.begun
  inFlight := by
    intro id'
    rw [outstandingSince_snoc, outstandingStep, hid]
    by_cases heq : id' = id
    · subst heq
      rw [if_pos rfl]
      exact Finmap.lookup_insert _
    · rw [if_neg fun hsome ↦ heq (Option.some.inj hsome).symm, ← h.inFlight]
      exact Finmap.lookup_insert_of_ne _ heq
  past := by
    intro id' sentAt hsent
    by_cases heq : id' = id
    · subst heq
      rw [show (s.inFlight.insert id' now).lookup id' = some now from
        Finmap.lookup_insert _] at hsent
      cases hsent
      exact (h.assigned p now hphase).2
    · exact h.past id' sentAt ((Finmap.lookup_insert_of_ne _ heq).symm.trans hsent)
  assigned := fun _ _ hassigned ↦ (by cases hassigned)
  completing := by
    intro id' code hack
    rw [answer_snoc]
    exact h.completing id' code hack
  freeing := by
    intro sentAt code hack
    rw [inHand_snoc]
    exact h.freeing sentAt code hack
  explained := Transition.throughout_snoc.2 ⟨h.explained, (h.assigned p now hphase).1⟩
  between := forall_between_snoc h.between trivial
  samples := by
    rw [filterMap_recorded_snoc rfl]
    exact h.samples
  acknowledged := by
    rw [List.countP_append]
    exact h.acknowledged

/-- What is in flight after an identifier is taken out. -/
theorem lookup_erase_eq {flying : Finmap fun _ : PacketId ↦ ℕ} {id id' : PacketId} :
    (flying.erase id).lookup id' = if id = id' then none else flying.lookup id' := by
  by_cases heq : id = id'
  · subst heq
    rw [if_pos rfl]
    exact Finmap.lookup_erase _ _
  · rw [if_neg heq]
    exact Finmap.lookup_erase_ne (Ne.symm heq)

/-- What is still in flight was in flight. -/
theorem lookup_of_erase {flying : Finmap fun _ : PacketId ↦ ℕ} {id id' : PacketId} {sentAt : ℕ}
    (h : (flying.erase id).lookup id' = some sentAt) : flying.lookup id' = some sentAt := by
  rw [lookup_erase_eq] at h
  split at h
  · cases h
  · exact h

/-- A message whose write failed is in flight no more. -/
theorem Measured.dropped {id : PacketId} {permits : ℕ} {result : Except Failure (List ℕ)}
    (h : Measured c es s) :
    Measured c (es ++ [.dropped id])
      { s with
        inFlight := s.inFlight.erase id
        permits := permits
        phase := .returned result } where
  begun := h.begun
  inFlight := by
    intro id'
    rw [outstandingSince_snoc, outstandingStep, ← h.inFlight]
    exact lookup_erase_eq
  past := fun id' sentAt hsent ↦ h.past id' sentAt (lookup_of_erase hsent)
  assigned := fun _ _ hassigned ↦ (by cases hassigned)
  completing := by
    intro id' code hack
    rw [answer_snoc]
    exact h.completing id' code hack
  freeing := by
    intro sentAt code hack
    rw [inHand_snoc]
    exact h.freeing sentAt code hack
  explained := Transition.throughout_snoc.2 ⟨h.explained, trivial⟩
  between := forall_between_snoc h.between trivial
  samples := by
    rw [filterMap_recorded_snoc rfl]
    exact h.samples
  acknowledged := by
    rw [List.countP_append]
    exact h.acknowledged

/-- An acknowledgement is read. -/
theorem Measured.answered {id : PacketId} {code : ReasonCode} {refused : List ReasonCode}
    {inbound : List Inbound} (h : Measured c es s) :
    Measured c (es ++ [.answered id code])
      { s with inbound := inbound, refused := refused, ack := .completing id code } where
  begun := h.begun
  inFlight := by
    intro id'
    rw [outstandingSince_snoc]
    exact h.inFlight id'
  past := h.past
  assigned := h.assigned
  completing := by
    intro id' code' hack
    cases hack
    rw [answer_snoc]
    rfl
  freeing := fun _ _ hack ↦ (by cases hack)
  explained := Transition.throughout_snoc.2 ⟨h.explained, trivial⟩
  between := forall_between_snoc h.between trivial
  samples := by
    rw [filterMap_recorded_snoc rfl]
    exact h.samples
  acknowledged := by
    rw [List.countP_append]
    exact h.acknowledged

/-- **The send time that is taken is the one that the identifier is outstanding with.** -/
theorem Measured.taken {id : PacketId} {code : ReasonCode} {sentAt : ℕ} (h : Measured c es s)
    (hack : s.ack = .completing id code) (hsent : s.inFlight.lookup id = some sentAt) :
    Measured c (es ++ [.taken id code sentAt])
      { s with inFlight := s.inFlight.erase id, ack := .freeing sentAt code } where
  begun := h.begun
  inFlight := by
    intro id'
    rw [outstandingSince_snoc, outstandingStep, ← h.inFlight]
    exact lookup_erase_eq
  past := fun id' sentAt' hsent' ↦ h.past id' sentAt' (lookup_of_erase hsent')
  assigned := h.assigned
  completing := fun _ _ hack' ↦ (by cases hack')
  freeing := by
    intro sentAt' code' hack'
    cases hack'
    rw [inHand_snoc]
    exact ⟨rfl, h.past id sentAt hsent⟩
  explained := by
    refine Transition.throughout_snoc.2 ⟨h.explained, h.completing id code hack, ?_⟩
    rw [← h.inFlight]
    exact hsent
  between := forall_between_snoc h.between trivial
  samples := by
    rw [filterMap_recorded_snoc rfl]
    exact h.samples
  acknowledged := by
    rw [List.countP_append]
    exact h.acknowledged

/-- **An acknowledgement that succeeds is timed from there.** -/
theorem Measured.stopped {code : ReasonCode} {sentAt : ℕ} (h : Measured c es s)
    (hack : s.ack = .freeing sentAt code) (hinFlight : s'.inFlight = s.inFlight)
    (hphase : s'.phase = s.phase) (hclock : s'.clock = s.clock) (hreading : s'.ack = .reading)
    (hsamples : s'.samples =
      s.samples ++ ((Mark.stopped code sentAt s.clock).recorded c.warmupUntil).toList)
    (hacknowledged : s'.acknowledged = s.acknowledged + if !code.isError then 1 else 0) :
    Measured c (es ++ [.stopped code sentAt s.clock]) s' where
  begun := hclock ▸ h.begun
  inFlight := by
    intro id
    rw [outstandingSince_snoc, hinFlight]
    exact h.inFlight id
  past := by
    rw [hinFlight]
    exact fun id sentAt hsent ↦ (h.past id sentAt hsent).mono hclock.ge
  assigned := by
    rw [hphase]
    intro p now hassigned
    obtain ⟨hdated, hpast⟩ := h.assigned p now hassigned
    exact ⟨hdated, hpast.mono hclock.ge⟩
  completing := fun _ _ hack' ↦ (by cases hreading.symm.trans hack')
  freeing := fun _ _ hack' ↦ (by cases hreading.symm.trans hack')
  explained := by
    obtain ⟨hinHand, -, hle⟩ := h.freeing sentAt code hack
    exact Transition.throughout_snoc.2 ⟨h.explained, hinHand, hle⟩
  between := by
    rw [hclock]
    exact forall_between_snoc h.between ⟨(h.freeing sentAt code hack).2.1, le_rfl⟩
  samples := by
    rw [hsamples, h.samples, List.filterMap_append]
    rfl
  acknowledged := by
    rw [hacknowledged, h.acknowledged, List.countP_append, List.countP_singleton]
    rfl

/-- Treating a packet takes no time. -/
theorem onPacket_clock (s : State) (p : Packet) : (onPacket s p).clock = s.clock := by
  unfold onPacket
  split <;> first | rfl | (split <;> rfl)

/-- What the ack side does with an acknowledgement that ends a message's flow. -/
theorem onPacket_of_terminal {p : Packet} {x : PacketId × ReasonCode} (h : terminal p = some x) :
    onPacket s p = completeAck s x.1 x.2 := by
  cases p with
  | puback ack | pubcomp ack =>
    cases h
    rfl
  | pubrec ack =>
    rw [terminal] at h
    split at h
    next hcode =>
      cases h
      exact if_pos hcode
    next => cases h
  | _ => cases h

/-- Other packets leave the send times alone. -/
theorem leaves_onPacket (s : State) (rest : List Inbound) {p : Packet} (h : terminal p = none) :
    Leaves s (onPacket { s with inbound := rest } p) := by
  cases p with
  | puback | pubcomp => cases h
  | pubrec ack =>
    rw [terminal] at h
    split at h
    next => cases h
    next hcode =>
      rw [onPacket, if_neg hcode]
      exact ⟨rfl, .inl rfl, rfl, rfl, le_rfl⟩
  | _ => exact ⟨rfl, .inl rfl, rfl, rfl, le_rfl⟩

/-- A step of the ack side. -/
theorem Measured.acknowledge (h : Measured c es s) (ha : acknowledge c s = some s') :
    Measured c (es ++ (mark s .acknowledge).toList) s' := by
  unfold Publisher.acknowledge at ha
  cases hack : s.ack with
  | reading =>
    rw [hack] at ha
    simp only at ha
    cases hinbound : s.inbound with
    | nil =>
      rw [hinbound] at ha
      cases ha
    | cons x rest =>
      rw [hinbound] at ha
      cases x with
      | packet p =>
        cases ha
        cases hterminal : terminal p with
        | none =>
          rw [← hack]
          refine h.unmarked ?_ (leaves_onPacket s rest hterminal) ?_
          · simp only [mark, hack, hinbound, hterminal, Option.map_none]
          · rw [onPacket_phase]
            intro q now hassigned
            obtain ⟨hdated, hpast⟩ := h.assigned q now hassigned
            exact ⟨hdated, hpast.mono (onPacket_clock { s with inbound := rest } p).ge⟩
        | some x =>
          have hmark : mark s .acknowledge = some (.answered x.1 x.2) := by
            simp only [mark, hack, hinbound, hterminal, Option.map_some]
          rw [hmark, onPacket_of_terminal hterminal]
          exact h.answered
      | eof | error e =>
        cases ha
        refine h.unmarked ?_ ⟨rfl, .inr ⟨fun _ _ ↦ ?_, fun _ _ ↦ ?_⟩, rfl, rfl, le_rfl⟩ h.assigned
        · simp only [mark, hack, hinbound]
        · exact AckPhase.noConfusion
        · exact AckPhase.noConfusion
  | completing id code =>
    rw [hack] at ha
    simp only at ha
    split at ha
    next sentAt hsent =>
      cases ha
      have hmark : mark s .acknowledge = some (.taken id code sentAt) := by
        simp only [mark, hack, hsent, Option.map_some]
      rw [hmark]
      exact h.taken hack hsent
    next hunknown =>
      cases ha
      refine h.unmarked ?_ ⟨rfl, .inr ⟨fun _ _ ↦ ?_, fun _ _ ↦ ?_⟩, rfl, rfl, le_rfl⟩ h.assigned
      · simp only [mark, hack, hunknown, Option.map_none]
      · exact AckPhase.noConfusion
      · exact AckPhase.noConfusion
  | freeing sentAt code =>
    rw [hack] at ha
    have hmark : mark s .acknowledge = some (.stopped code sentAt s.clock) := by
      simp only [mark, hack]
    rw [hmark]
    simp only at ha
    split at ha
    next hcode =>
      cases ha
      refine h.stopped hack rfl rfl rfl rfl ?_ ?_
      · simp only [Mark.recorded, Mark.sample, hcode, Bool.true_eq_false, false_and, if_false,
          Option.map_none, Option.toList_none, List.append_nil]
      · simp only [hcode, Bool.not_true, Bool.false_eq_true, if_false, Nat.add_zero]
    next hcode =>
      cases ha
      have hsuccess : code.isError = false := Bool.eq_false_iff.2 hcode
      refine h.stopped hack rfl rfl rfl rfl ?_ ?_
      · simp only [Mark.recorded, Mark.sample, hsuccess, true_and]
        split
        · rfl
        · exact (List.append_nil _).symm
      · simp only [hsuccess, Bool.not_false, if_true]
  | closing error =>
    rw [hack] at ha
    cases ha
    refine h.unmarked ?_ ⟨rfl, .inr ⟨fun _ _ ↦ ?_, fun _ _ ↦ ?_⟩, rfl, rfl, le_rfl⟩ h.assigned
    · simp only [mark, hack]
    · exact AckPhase.noConfusion
    · exact AckPhase.noConfusion
  | finished | aborted =>
    rw [hack] at ha
    cases ha

/-- A step of the write side, where its writes succeed. -/
theorem Measured.advance (h : Measured c es s) (ha : advance c s = some s') :
    Measured c (es ++ (mark s .advance).toList) s' := by
  unfold Publisher.advance at ha
  cases hphase : s.phase with
  | assigned p now =>
    rw [hphase] at ha
    simp only at ha
    split at ha
    next id hid =>
      cases ha
      have hmark : mark s .advance = some (.started p now) := by
        simp only [mark, hphase, hid, Option.map_some]
      rw [hmark]
      exact h.started hphase hid
    next hid =>
      cases ha
      refine h.passed ?_ ⟨rfl, .inl rfl, rfl, rfl, le_rfl⟩ fun _ _ ↦ Phase.noConfusion
      simp only [mark, hphase, hid, Option.map_none]
  | failing p e =>
    rw [hphase] at ha
    cases ha
    cases hid : p.packetId with
    | some id =>
      have hmark : mark s .advance = some (.dropped id) := by
        simp only [mark, hphase, hid, Option.map_some]
      rw [hmark]
      exact h.dropped
    | none =>
      refine h.passed ?_ ⟨rfl, .inl rfl, rfl, rfl, le_rfl⟩ fun _ _ ↦ Phase.noConfusion
      simp only [mark, hphase, hid, Option.map_none]
  | permitted =>
    rw [hphase] at ha
    simp only at ha
    split at ha
    next =>
      cases ha
      refine h.unmarked ?_ ⟨rfl, .inl rfl, rfl, rfl, le_rfl⟩ fun p now hassigned ↦ ?_
      · simp only [mark, hphase]
      · cases hassigned
        exact ⟨datedAt_message c s _, h.begun, le_rfl⟩
    next =>
      cases ha
      refine h.passed ?_ ⟨rfl, .inl rfl, rfl, rfl, le_rfl⟩ fun _ _ ↦ Phase.noConfusion
      simp only [mark, hphase]
  | draining d =>
    have hmark : mark s .advance = none := by simp only [mark, hphase]
    rw [hphase] at ha
    simp only at ha
    split at ha
    next =>
      cases ha
      exact h.passed hmark ⟨rfl, .inl rfl, rfl, rfl, le_rfl⟩ fun _ _ ↦ Phase.noConfusion
    next =>
      cases ha
      exact h.passed hmark (leaves_drained s d) (drained_phase_ne_assigned s d)
  | checkingQuota | checkingStop | acquiring =>
    have hmark : mark s .advance = none := by simp only [mark, hphase]
    rw [hphase] at ha
    simp only at ha
    repeat' split at ha
    all_goals cases ha
    all_goals refine h.passed hmark ⟨rfl, .inl rfl, rfl, rfl, le_rfl⟩ ?_
    all_goals first
      | exact leave_phase_ne_assigned _
      | exact fun _ _ ↦ Phase.noConfusion
  | releasing | pacing | writing | written | waiting | napping | disconnecting | joining
  | returned =>
    have hmark : mark s .advance = none := by simp only [mark, hphase]
    rw [hphase] at ha
    simp only at ha
    repeat' split at ha
    all_goals cases ha
    all_goals
      exact h.passed hmark ⟨rfl, .inl rfl, rfl, rfl, le_rfl⟩ fun _ _ ↦ Phase.noConfusion

/-- A write that fails leaves no mark; its message is taken out of the map by the step after it. -/
theorem Measured.write_fails (h : Measured c es s) {e : MqttError} (ha : fail c e s = some s') :
    Measured c (es ++ (mark s (.fail e)).toList) s' := by
  have hphase := fail_phase_ne_assigned ha
  obtain ⟨phase, errors, rfl⟩ := frame_of_fail ha
  exact h.passed rfl ⟨rfl, .inl rfl, rfl, rfl, le_rfl⟩ hphase

/-- A step of a publisher that is told to stop. -/
theorem Measured.halted (h : Measured c es s) (ha : halt c s = some s') :
    Measured c (es ++ (mark s .halt).toList) s' := by
  unfold halt at ha
  repeat' split at ha
  all_goals cases ha
  all_goals exact h.passed rfl ⟨rfl, .inl rfl, rfl, rfl, le_rfl⟩ (leave_phase_ne_assigned s)

/-- An ack side that is given up leaves what is in flight unmeasured. -/
theorem Measured.timed_out (h : Measured c es s) (ha : timeout s = some s') :
    Measured c (es ++ (mark s .timeout).toList) s' := by
  unfold timeout at ha
  repeat' split at ha
  all_goals cases ha
  refine h.passed rfl ⟨rfl, .inr ⟨fun _ _ ↦ ?_, fun _ _ ↦ ?_⟩, rfl, rfl, le_rfl⟩
    fun _ _ ↦ Phase.noConfusion
  · exact AckPhase.noConfusion
  · exact AckPhase.noConfusion

/-- **A publisher's variables stay what its marks tell.** -/
theorem Measured.step (h : Measured c es s) (ha : step c s a = some s') :
    Measured c (es ++ (mark s a).toList) s' := by
  cases a with
  | advance => exact h.advance ha
  | acknowledge => exact h.acknowledge ha
  | tick nanos =>
    cases ha
    refine h.unmarked rfl ⟨rfl, .inl rfl, rfl, rfl, Nat.le_add_right _ _⟩ fun p now hassigned ↦ ?_
    obtain ⟨hdated, hpast⟩ := h.assigned p now hassigned
    exact ⟨hdated, hpast.mono (Nat.le_add_right _ _)⟩
  | deliver | raiseStop | dropStop =>
    cases ha
    exact h.unmarked rfl ⟨rfl, .inl rfl, rfl, rfl, le_rfl⟩ h.assigned
  | fail e => exact h.write_fails ha
  | halt => exact h.halted ha
  | timeout => exact h.timed_out ha

end Marked

/-! ### What a publisher returns

The samples leave a publisher with its result. A publisher that returned success has an ack side
that is over, so nothing is added to them afterwards. -/

/-- A publisher that has returned samples returned all it measured, and its ack side is over. -/
def Concluded (s : State) : Prop :=
  ∀ samples, s.phase = .returned (.ok samples) →
    samples = s.samples ∧ ∃ error, s.ack = .finished error

/-- Only a publisher that returned samples has concluded something. -/
theorem Concluded.of_phase (h : ∀ samples, s.phase ≠ .returned (.ok samples)) : Concluded s :=
  fun samples hphase ↦ absurd hphase (h samples)

/-- The ack side makes no step any more. -/
theorem Concluded.of_ack (h : Concluded s) (hack : ∀ error, s.ack ≠ .finished error)
    (hphase : s'.phase = s.phase) : Concluded s' := by
  intro samples hreturned
  rw [hphase] at hreturned
  obtain ⟨-, error, hfinished⟩ := h samples hreturned
  exact absurd hfinished (hack error)

/-- What was returned is not changed any more. -/
theorem Concluded.move (h : Concluded s) (hm : Move c s s') : Concluded s' := by
  cases hm with
  | tick | deliver | raiseStop | dropStop => exact h
  | read hack =>
    refine h.of_ack (fun error hfinished ↦ ?_) (onPacket_phase _ _)
    cases hack.symm.trans hfinished
  | readEof hack | readError hack | complete hack | completeUnknown hack | freeRefused hack
  | free hack | close hack =>
    refine h.of_ack (fun error hfinished ↦ ?_) rfl
    cases hack.symm.trans hfinished
  | @joined deadline error hphase hack =>
    intro samples hreturned
    have hresult : result s error = .ok samples := Phase.returned.inj hreturned
    refine ⟨?_, error, hack⟩
    unfold result at hresult
    split at hresult
    · cases hresult
    · split at hresult
      · cases hresult
      · cases hresult
        rfl
  | quotaReached | stopSeen | haltPacing | acquireClosed | haltAcquiring =>
    refine .of_phase fun samples hreturned ↦ ?_
    rcases leave_phase _ with hl | ⟨deadline, hl⟩
    all_goals cases hl.symm.trans hreturned
  | drained | releaseIgnored =>
    refine .of_phase fun samples hreturned ↦ ?_
    rcases drained_phase _ _ with hd | hd | ⟨deadline, wake, hd⟩
    all_goals cases hd.symm.trans hreturned
  | _ => exact .of_phase fun samples hreturned ↦ (by cases hreturned)

end Publisher

namespace Run

open Protocol Transition

variable {r : Setting}

/-! ### Runs with the marks of their publishers

Marks of a run carry the publisher's number. A step of another task, of the clock or of `run` itself
leaves none of a publisher's marks, and takes its task from one state with the same samples to
another. -/

/-- The marks of an act. -/
def laps (s : State r) : Act r → List (Fin r.config.publishers × Publisher.Mark)
  | .publisher i (.act a) =>
    match s.publishers i with
    | .running _ p => (Publisher.mark p a).toList.map (Prod.mk i)
    | _ => []
  | _ => []

/-- A run with the marks of its publishers. -/
abbrev LappedRun (r : Setting) :
    List (Fin r.config.publishers × Publisher.Mark) → State r → Prop :=
  Marked (fun _ _ ↦ True) step laps (initial r)

/-- The marks of one publisher. -/
def marksOf (i : Fin r.config.publishers) (es : List (Fin r.config.publishers × Publisher.Mark)) :
    List Publisher.Mark :=
  es.filterMap fun x ↦ if x.1 = i then some x.2 else none

/-- The task has returned its samples. -/
def PublisherTask.succeeded : PublisherTask → Bool
  | .running _ p =>
    match p.phase with
    | .returned (.ok _) => true
    | _ => false
  | _ => false

/-- The ack samples of a run, by the marks of the publishers that have returned. -/
def ackTimes (s : State r) (es : List (Fin r.config.publishers × Publisher.Mark)) : List ℕ :=
  (List.ofFn fun i ↦ if (s.publishers i).succeeded then
    (marksOf i es).filterMap (Publisher.Mark.sample r.warmupUntil) else []).flatten

/-- The task measures what its marks tell. -/
def PublisherTask.Measured (r : Setting) (es : List Publisher.Mark) : PublisherTask → Prop
  | .running c p => (c.baseline = r.baseline ∧ c.warmupUntil = r.warmupUntil) ∧
      Publisher.Measured c es p ∧ Publisher.Concluded p
  | _ => es = []

variable {s s' : State r} {a : Act r} {es : List (Fin r.config.publishers × Publisher.Mark)}
  {i : Fin r.config.publishers}

/-- Marks are told apart by their publisher, run by run. -/
theorem marksOf_append (i : Fin r.config.publishers)
    (es fs : List (Fin r.config.publishers × Publisher.Mark)) :
    marksOf i (es ++ fs) = marksOf i es ++ marksOf i fs :=
  List.filterMap_append

/-- What is not a publisher's own step leaves no mark of its. -/
theorem marksOf_laps_of_ne (h : ∀ b, a ≠ .publisher i b) : marksOf i (laps s a) = [] := by
  refine List.filterMap_eq_nil_iff.2 fun x hx ↦ ?_
  unfold laps at hx
  split at hx
  next i' b =>
    split at hx
    next =>
      obtain ⟨m, -, rfl⟩ := List.mem_map.1 hx
      exact if_neg fun heq ↦ h _ (by rw [← heq])
    next => cases hx
  next => cases hx

/-- A publisher's own step leaves its mark. -/
theorem marksOf_laps {c : Publisher.Setting} {p : Publisher.State}
    (hrunning : s.publishers i = .running c p) (b : Publisher.Act) :
    marksOf i (laps s (.publisher i (.act b))) = (Publisher.mark p b).toList := by
  rw [marksOf, laps, hrunning]
  simp only [List.filterMap_map, Function.comp_def, if_true, List.filterMap_some]

/-- **A task goes on measuring what its marks tell.** -/
theorem measured_step (h : (s.publishers i).Measured r (marksOf i es)) (hstaged : Staged s)
    (hbaseline : r.baseline ≤ s.clock) (ha : step s a = some s') :
    (s'.publishers i).Measured r (marksOf i (es ++ laps s a)) := by
  rw [marksOf_append]
  rcases publisher_of_step ha i with ⟨rfl, htask⟩ | ⟨b, t, rfl, ht, htask⟩ |
    ⟨-, hother, nanos, stop, htask⟩
  · obtain ⟨wake, hmain⟩ := settling_of_settle ha
    rw [hstaged.unspawned wake hmain i] at h
    rw [htask, show marksOf i es = [] from h]
    rfl
  · rw [htask]
    unfold PublisherTask.step at ht
    split at ht
    next receiveMaximum hconnecting =>
      cases ht
      rw [hconnecting] at h
      rw [show marksOf i es = [] from h]
      exact ⟨⟨rfl, rfl⟩, Publisher.measured_initial hbaseline _, fun _ hphase ↦ (by cases hphase)⟩
    next e hconnecting =>
      cases ht
      rw [hconnecting] at h
      rw [show marksOf i es = [] from h]
      rfl
    next c p b hrunning =>
      split at ht
      next => cases ht
      next =>
        obtain ⟨p', hp', rfl⟩ := Option.map_eq_some_iff.1 ht
        rw [hrunning] at h
        obtain ⟨hsetting, hmeasured, hconcluded⟩ := h
        rw [marksOf_laps hrunning]
        exact ⟨hsetting, hmeasured.step hp', hconcluded.move (Publisher.move_of_step ⟨b, hp'⟩)⟩
    next c p e hrunning =>
      obtain ⟨p', hp', rfl⟩ := Option.map_eq_some_iff.1 ht
      rw [hrunning] at h
      obtain ⟨hsetting, hmeasured, -⟩ := h
      obtain ⟨-, permits, rfl⟩ := Publisher.panic_eq hp'
      rw [show marksOf i (laps s (.publisher i (.panic e))) = [] from rfl, List.append_nil]
      exact ⟨hsetting, hmeasured.leaves ⟨rfl, .inl rfl, rfl, rfl, le_rfl⟩
        fun _ _ hphase ↦ (by cases hphase), fun _ hphase ↦ (by cases hphase)⟩
    next => cases ht
  · rw [htask, marksOf_laps_of_ne hother, List.append_nil]
    cases hbefore : s.publishers i with
    | running c p =>
      rw [hbefore] at h
      obtain ⟨hsetting, hmeasured, hconcluded⟩ := h
      refine ⟨hsetting, hmeasured.leaves ⟨rfl, .inl rfl, rfl, rfl, Nat.le_add_right _ _⟩ ?_,
        hconcluded⟩
      intro q now hassigned
      obtain ⟨hdated, hpast⟩ := hmeasured.assigned q now hassigned
      exact ⟨hdated, hpast.mono (Nat.le_add_right _ _)⟩
    | _ =>
      rw [hbefore] at h
      exact h

/-- A run with marks is a run, and its tasks measure what the marks tell. -/
theorem measured_of_lappedRun (h : LappedRun r es s) :
    Reaches Step (initial r) s ∧ ∀ i, (s.publishers i).Measured r (marksOf i es) := by
  refine h.invariant (I := fun es s ↦ Reaches Step (initial r) s ∧
    ∀ i, (s.publishers i).Measured r (marksOf i es)) ⟨.refl, fun _ ↦ rfl⟩ ?_
  rintro es s a t ⟨hs, hmeasured⟩ - ha
  exact ⟨hs.tail ⟨a, ha⟩, fun i ↦
    measured_step (hmeasured i) (always_staged r s hs) (always_dated r s hs).baseline ha⟩

/-! ### The result -/

/-- What a task measures is what it samples, while the clock fits. -/
theorem PublisherTask.Measured.samples_eq {c : Publisher.Setting} {p : Publisher.State}
    (h : (s.publishers i).Measured r (marksOf i es)) (hdated : AllDated s)
    (hfits : s.clock - r.baseline < 2 ^ 64) (hrunning : s.publishers i = .running c p) :
    p.samples = (marksOf i es).filterMap (Publisher.Mark.sample r.warmupUntil) := by
  have hi := hdated.tasks i
  rw [hrunning] at h hi
  obtain ⟨⟨hbaseline, hwarmup⟩, hmeasured, -⟩ := h
  obtain ⟨-, hclock, -⟩ := hi
  rw [← hwarmup]
  exact hmeasured.samples_eq (by rw [hclock, hbaseline]; exact hfits)

/-- What a task contributes to the report: the samples of its marks if it succeeded, and otherwise
none. -/
theorem PublisherTask.toOption_result (h : (s.publishers i).Measured r (marksOf i es))
    (hdated : AllDated s) (hfits : s.clock - r.baseline < 2 ^ 64) (display : Error → String) :
    (((s.publishers i).result display).getD (.ok [])).toOption.getD [] =
      if (s.publishers i).succeeded then
        (marksOf i es).filterMap (Publisher.Mark.sample r.warmupUntil) else [] := by
  cases htask : s.publishers i with
  | running c p =>
    have hsamples := h.samples_eq hdated hfits htask
    rw [htask] at h
    obtain ⟨-, -, hconcluded⟩ := h
    cases hphase : p.phase with
    | returned result =>
      cases result with
      | error e =>
        simp only [PublisherTask.result, PublisherTask.succeeded, hphase]
        rfl
      | ok samples =>
        simp only [PublisherTask.result, PublisherTask.succeeded, hphase, if_true]
        rw [← hsamples]
        exact (hconcluded samples hphase).1
    | _ =>
      simp only [PublisherTask.result, PublisherTask.succeeded, hphase]
      rfl
  | _ => rfl

/-- The acknowledgements that are counted, publisher by publisher. -/
theorem sum_succeeds (es : List (Fin r.config.publishers × Publisher.Mark)) :
    ∑ i, (marksOf i es).countP Publisher.Mark.succeeds =
      es.countP fun x ↦ x.2.succeeds := by
  induction es with
  | nil => exact Finset.sum_const_zero
  | cons x es ih =>
    have hcons : ∀ i, (marksOf i (x :: es)).countP Publisher.Mark.succeeds =
        (marksOf i es).countP Publisher.Mark.succeeds +
          if x.1 = i then (if x.2.succeeds then 1 else 0) else 0 := by
      intro i
      rw [marksOf, List.filterMap_cons]
      by_cases hi : x.1 = i
      · simp only [if_pos hi, List.countP_cons]
        rfl
      · simp only [if_neg hi]
        rfl
    rw [Finset.sum_congr rfl fun i _ ↦ hcons i, Finset.sum_add_distrib, ih, Finset.sum_ite_eq,
      if_pos (Finset.mem_univ _), List.countP_cons]

/-- **Ack samples are the times from sends to their acknowledgements.** Of every run, in every
interleaving and against every broker: an acknowledgement is timed from the moment the header of the
message was made, which is the last one that went in flight with the identifier of the
acknowledgement and was not acknowledged; and what is counted is the acknowledgements that
succeeded. While the clock fits in a `u64` of nanoseconds, a publisher holds the time of every one
of them of a message that was sent after the warmup, in order, and nothing else; and what is
reported is exactly the samples of the publishers that returned. -/
theorem acks_exact (h : LappedRun r es s) :
    (∀ i, Throughout (Publisher.Explained r.baseline) (marksOf i es)) ∧
    s.snapshot.acknowledged = (es.countP fun x ↦ x.2.succeeds) ∧
    (s.clock - r.baseline < 2 ^ 64 →
      (∀ i c p, s.publishers i = .running c p →
        p.samples = (marksOf i es).filterMap (Publisher.Mark.sample r.warmupUntil)) ∧
      ∀ display, (s.report display).ack = Samples.summaryOf (ackTimes s es)) := by
  obtain ⟨hs, hmeasured⟩ := measured_of_lappedRun h
  have hdated := always_dated r s hs
  refine ⟨fun i ↦ ?_, ?_, fun hfits ↦
    ⟨fun i c p ↦ (hmeasured i).samples_eq hdated hfits, fun display ↦ ?_⟩⟩
  · have hi := hmeasured i
    cases htask : s.publishers i with
    | running c p =>
      rw [htask] at hi
      obtain ⟨⟨hbaseline, -⟩, hp, -⟩ := hi
      rw [← hbaseline]
      exact hp.explained
    | _ =>
      rw [htask] at hi
      rw [show marksOf i es = [] from hi]
      exact throughout_nil
  · show s.total _ = _
    rw [total_eq_sum, ← sum_succeeds]
    refine Finset.sum_congr rfl fun i _ ↦ ?_
    have hi := hmeasured i
    cases htask : s.publishers i with
    | running c p =>
      rw [htask] at hi
      exact hi.2.1.acknowledged
    | _ =>
      rw [htask] at hi
      rw [show marksOf i es = [] from hi]
      rfl
  · show (joinTasks (s.publisherResults display)).1.summary.1 = _
    rw [Samples.joinTasks_eq, Samples.summary_joinHandles, ← Samples.coe_flatMap_values,
      flatMap_returned, State.publisherResults, ackTimes, List.flatMap_def, List.map_ofFn]
    congr 4
    funext i
    exact PublisherTask.toOption_result (hmeasured i) hdated hfits display

/-- A message is acknowledged five nanoseconds after it was built. -/
def acknowledgedLater (i : Fin pair.config.publishers) : List (Act pair) :=
  [.tick subscriberSettle, .settle, .publisher i (.connected none)] ++
  List.replicate 8 (.publisher i (.act .advance)) ++
  [.tick 5, .publisher i (.act (.deliver (.packet (.puback ⟨1, .success⟩))))] ++
  List.replicate 3 (.publisher i (.act .acknowledge))

theorem acks_exact_acknowledgedLater : ∃ es s, LappedRun pair es s ∧
    s.clock - pair.baseline < 2 ^ 64 ∧
    (marksOf ⟨0, by decide⟩ es).filterMap (Publisher.Mark.sample pair.warmupUntil) = [5] ∧
    (∀ i, Throughout (Publisher.Explained pair.baseline) (marksOf i es)) ∧
    s.snapshot.acknowledged = (es.countP fun x ↦ x.2.succeeds) ∧
    (∀ i c p, s.publishers i = .running c p →
      p.samples = (marksOf i es).filterMap (Publisher.Mark.sample pair.warmupUntil)) ∧
    ∀ display, (s.report display).ack = Samples.summaryOf (ackTimes s es) := by
  have hrun : (Marked.perform (fun _ _ ↦ true) step laps (acknowledgedLater ⟨0, by decide⟩)
      ([], initial pair)).any (fun x ↦ x.2.clock - pair.baseline < 2 ^ 64 ∧
        (marksOf ⟨0, by decide⟩ x.1).filterMap (Publisher.Mark.sample pair.warmupUntil) = [5]) =
          true := by
    decide +kernel
  obtain ⟨⟨es, s⟩, hperform, hP⟩ := (Option.any_eq_true _ _).1 hrun
  have hmarked : LappedRun pair es s := .of_perform (fun _ _ _ ↦ trivial) .start hperform
  obtain ⟨hfits, hsamples⟩ := of_decide_eq_true hP
  obtain ⟨hexplained, hacknowledged, hexact⟩ := acks_exact hmarked
  exact ⟨es, s, hmarked, hfits, hsamples, hexplained, hacknowledged, hexact hfits⟩

end Run

end Bench

end PulsemqCli
