import PulsemqCli.Bench.Publisher.Ledger

/-!
# From PUBREC to PUBREL

The ack side hands the identifier of a PUBREC over the channel, and the write side writes the
PUBREL: at the top of its send loop, while it waits for the window to drain, and last before the
DISCONNECT. Only the first of these calls of `drain_pubrels` looks whether a write failed; what the
others lose, no later write makes up for, for on a connection every write fails once one has.

A `Connection` is a publisher together with whether one of its writes has failed. Its steps are the
publisher's, except that after the first failed write no write succeeds: this is what a broken TCP
connection does, and without it the order of the PUBRELs could not be kept, since a PUBREL that is
lost in the window's drain would be followed by others.

Four lists of identifiers are compared. `handed` are those of the PUBRECs that the ack side has read
and not refused, in order; `released` those of the PUBRELs written; `owed` those that are in the
channel or in the hands of the write side. As long as no write failed, `handed` is `released`
followed by `owed` (`Relays`), because a step moves at most one identifier and takes it from the
front (`Carries`). Once a write failed, `released` stops growing and remains a prefix.

For the end of a run it is enough to look at the last drain, the one before the DISCONNECT.
`Drains.step` says that it ends only where nothing is owed, so a DISCONNECT that is written finds
every PUBREL before it.
-/

namespace PulsemqCli

namespace Bench

namespace Publisher

open Protocol Transition

variable {c : Setting} {s s' : State} {a : Act}

/-! ### Connections that break

The model of a publisher lets each write succeed or fail by itself. That is right for what is proved
of any single step, but on a connection a write does not succeed after one has failed. `Connection`
adds this, and nothing else. -/

/-- The write side is writing a packet. -/
def Phase.IsWriting : Phase → Prop
  | .releasing _ _ | .writing _ | .disconnecting => True
  | _ => False

/-- A publisher, and whether a write on its connection has failed. -/
structure Connection where
  state : State
  broken : Bool

namespace Connection

/-- A step on a connection on which every write fails once one has. -/
def Step (c : Setting) (x y : Connection) : Prop :=
  ∃ a, step c x.state a = some y.state ∧
    (a = .advance → x.state.phase.IsWriting → x.broken = false) ∧
    (y.broken = true ↔ x.broken = true ∨ ∃ e, a = .fail e)

def initial (c : Setting) (clock : ℕ) : Connection where
  state := Publisher.initial c clock
  broken := false

/-- A run, with its history. -/
abbrev Runs (c : Setting) : Connection → List Event → Connection → Prop :=
  History (Step c) fun x y ↦ events x.state y.state

end Connection

/-- Only a write can fail. -/
theorem isWriting_of_fail {e : MqttError} (h : fail c e s = some s') : s.phase.IsWriting := by
  unfold fail at h
  cases hphase : s.phase with
  | releasing | writing | disconnecting => trivial
  | _ =>
    rw [hphase] at h
    cases h

/-- There are three places where the write side writes: a PUBREL, a PUBLISH and the DISCONNECT. -/
theorem Phase.IsWriting.eq {phase : Phase} (h : phase.IsWriting) :
    (∃ d id, phase = .releasing d id) ∨ (∃ p, phase = .writing p) ∨ phase = .disconnecting := by
  cases phase with
  | releasing d id => exact Or.inl ⟨d, id, rfl⟩
  | writing p => exact Or.inr (Or.inl ⟨p, rfl⟩)
  | disconnecting => exact Or.inr (Or.inr rfl)
  | _ => exact h.elim

/-- Out of a write the write side goes on or fails. -/
theorem act_of_isWriting (ha : step c s a = some s') (h : s.phase.IsWriting)
    (hne : s'.phase ≠ s.phase) : a = .advance ∨ ∃ e, a = .fail e := by
  cases a with
  | advance => exact Or.inl rfl
  | fail e => exact Or.inr ⟨e, rfl⟩
  | tick | deliver | raiseStop | dropStop =>
    cases ha
    exact absurd rfl hne
  | acknowledge => exact absurd (acknowledge_phase ha) hne
  | halt =>
    rcases h.eq with ⟨d, id, hphase⟩ | ⟨p, hphase⟩ | hphase
    all_goals
      simp only [step, halt, hphase] at ha
      split at ha <;> cases ha
  | timeout =>
    rcases h.eq with ⟨d, id, hphase⟩ | ⟨p, hphase⟩ | hphase
    all_goals
      simp only [step, timeout, hphase] at ha
      cases ha

/-- A write that does not fail writes. -/
theorem written_of_advance (ha : advance c s = some s') (h : s.phase.IsWriting) :
    ∃ p, s'.written = s.written ++ [p] := by
  rcases h.eq with ⟨d, id, hphase⟩ | ⟨p, hphase⟩ | hphase
  all_goals
    simp only [advance, hphase, Option.some.injEq] at ha
    subst ha
    exact ⟨_, rfl⟩

/-- In a step that is not a failure, the write side leaves a write only by writing. -/
theorem written_of_isWriting (ha : step c s a = some s') (hfail : ∀ e, a ≠ .fail e)
    (h : s.phase.IsWriting) (hne : s'.phase ≠ s.phase) : s'.written ≠ s.written := by
  intro hsame
  rcases act_of_isWriting ha h hne with rfl | ⟨e, rfl⟩
  · obtain ⟨p, hp⟩ := written_of_advance ha h
    rw [hp] at hsame
    simp at hsame
  · exact hfail e rfl

/-- Only the write side writes, and only at a write. -/
theorem written_eq_of_not_advance (ha : step c s a = some s')
    (h : a = .advance → ¬s.phase.IsWriting) : s'.written = s.written := by
  have hwrites : s.phase.IsWriting → s'.phase ≠ s.phase → s'.written = s.written := by
    intro hwriting hne
    rcases act_of_isWriting ha hwriting hne with rfl | ⟨e, rfl⟩
    · exact absurd hwriting (h rfl)
    · obtain ⟨phase, errors, rfl⟩ := frame_of_fail ha
      rfl
  cases move_of_step ⟨a, ha⟩ with
  | release hphase | write hphase | disconnect hphase =>
    refine hwrites ?_ ?_ <;> rw [hphase]
    · trivial
    · exact Phase.noConfusion
  | drained | releaseIgnored => exact drained_written _ _
  | read => exact onPacket_written _ _
  | _ => rfl

/-! ### What is released, owed and handed over

The three lists are read off the history, the packets written, and the two places where an
identifier waits. A step that is not a failure moves an identifier from one to the next, or adds one
at the end. -/

/-- The identifier of a PUBREL. -/
def release : Packet → Option PacketId
  | .pubrel a => some a.packetId
  | _ => none

/-- The identifiers of the PUBRELs written. -/
def released (s : State) : List PacketId :=
  s.written.filterMap release

/-- The identifiers whose PUBREL is to be written, the one being written included. -/
def owed (s : State) : List PacketId :=
  s.phase.releases ++ s.pubrels

/-- The identifier that is handed over, of a PUBREC without an error code. -/
def handOver : Inbound → Option PacketId
  | .packet (.pubrec a) => if a.reasonCode.isError then none else some a.packetId
  | _ => none

/-- The identifiers of the PUBRECs received without an error code. -/
def handed (es : List Event) : List PacketId :=
  es.filterMap fun | .read x => handOver x | _ => none

theorem handed_append (es fs : List Event) : handed (es ++ fs) = handed es ++ handed fs :=
  List.filterMap_append

/-- What a step hands over is what it has taken from the inbound packets. -/
theorem handed_events (s s' : State) :
    handed (events s s') =
      (s.inbound.take (s.inbound.length - s'.inbound.length)).filterMap handOver := by
  have hentries : handed (entries s.phase s'.phase) = [] := by
    unfold entries
    split
    next p _ _ _ _ => cases p.packetId <;> rfl
    next => rfl
  have hlookups : handed (lookups s.ack s'.ack) = [] := by
    unfold lookups
    split <;> rfl
  have hwrote : ∀ ps : List Packet, handed (ps.map .wrote) = [] := fun ps ↦ by
    simp [handed]
  have hread : ∀ xs : List Inbound, handed (xs.map .read) = xs.filterMap handOver := fun xs ↦ by
    simp only [handed, List.filterMap_map]
    rfl
  rw [events, handed_append, handed_append, handed_append, hentries, hlookups, hwrote, hread,
    List.nil_append, List.nil_append, List.append_nil]

/-- Where nothing is read, nothing is handed over. -/
theorem handed_of_same (h : s'.inbound = s.inbound) : handed (events s s') = [] := by
  rw [handed_events, h, Nat.sub_self]
  rfl

/-- A PUBREC that is read is handed over, unless it is refused. -/
theorem handed_of_read {x : Inbound} (h : s.inbound = x :: s'.inbound) :
    handed (events s s') = (handOver x).toList := by
  rw [handed_events, h, List.length_cons, Nat.add_sub_cancel_left, List.take_succ_cons,
    List.take_zero]
  cases hx : handOver x <;> simp [hx]

/-- What is owed is what the write side has in hand and what is in the channel. -/
theorem owed_of_phase {phase : Phase} (h : s.phase = phase) :
    owed s = phase.releases ++ s.pubrels := by
  rw [owed, h]

/-- Leaving the send loop loses no identifier. -/
theorem owed_leave (s : State) : owed (leave s) = s.pubrels := by
  rcases leave_phase s with h | ⟨deadline, h⟩ <;> rw [owed_of_phase h] <;> rfl

theorem owed_drained (s : State) (d : Drain) : owed (drained s d) = s.pubrels := by
  cases d <;> rfl

theorem released_congr (h : s'.written = s.written) : released s' = released s := by
  rw [released, h, released]

/-- Writing a PUBREL releases its identifier. -/
theorem released_snoc {p : Packet} (h : s'.written = s.written ++ [p]) :
    released s' = released s ++ (release p).toList := by
  rw [released, h, List.filterMap_append, released]
  cases hp : release p <;> simp [hp]

/-- What is released and owed afterwards is what was before, and what was handed over. -/
def Carries (s s' : State) : Prop :=
  released s' ++ owed s' = released s ++ owed s ++ handed (events s s')

/-- A step that neither reads nor writes. -/
theorem Carries.of_same (hreleased : released s' = released s) (howed : owed s' = owed s)
    (hinbound : s'.inbound = s.inbound) : Carries s s' := by
  rw [Carries, hreleased, howed, handed_of_same hinbound, List.append_nil]

/-- A step that writes the PUBREL it is at. -/
theorem Carries.of_release {id : PacketId}
    (hwritten : s'.written = s.written ++ [.pubrel ⟨id, .success⟩]) (howed : owed s = id :: owed s')
    (hinbound : s'.inbound = s.inbound) : Carries s s' := by
  rw [Carries, released_snoc hwritten, howed, handed_of_same hinbound, List.append_nil,
    List.append_assoc]
  rfl

/-- A step that reads a packet. -/
theorem Carries.of_read {x : Inbound} (hreleased : released s' = released s)
    (howed : owed s' = owed s ++ (handOver x).toList) (hinbound : s.inbound = x :: s'.inbound) :
    Carries s s' := by
  rw [Carries, hreleased, howed, handed_of_read hinbound, List.append_assoc]

/-- A PUBREC without an error code is owed a PUBREL, and nothing else is. -/
theorem carries_onPacket {p : Packet} {rest : List Inbound}
    (hinbound : s.inbound = .packet p :: rest) :
    Carries s (onPacket { s with inbound := rest } p) := by
  have hrest : (onPacket { s with inbound := rest } p).inbound = rest := by
    unfold onPacket
    split <;> first | rfl | (split <;> rfl)
  have howed : owed (onPacket { s with inbound := rest } p) =
      owed s ++ (handOver (.packet p)).toList := by
    unfold onPacket handOver owed
    cases p with
    | pubrec a =>
      by_cases herror : a.reasonCode.isError = true
      · simp [completeAck, herror]
      · simp [herror]
    | _ => simp [completeAck]
  exact .of_read (released_congr (onPacket_written _ _)) howed (hinbound.trans (by rw [hrest]))

/-- **A step that is not a failure loses no identifier**, makes none up and moves none. -/
theorem carries_of_step (ha : step c s a = some s') (hfail : ∀ e, a ≠ .fail e) :
    Carries s s' := by
  have hwrites := fun hw hne ↦ written_of_isWriting ha hfail hw hne
  cases move_of_step ⟨a, ha⟩ with
  | tick | raiseStop | dropStop => exact .of_same rfl rfl rfl
  | deliver x =>
    have hnone : handed (events s { s with inbound := s.inbound ++ [x] }) = [] := by
      rw [handed_events, List.length_append, Nat.sub_add_eq, Nat.sub_self, Nat.zero_sub]
      rfl
    exact (List.append_nil _).symm.trans (congrArg (released s ++ owed s ++ ·) hnone.symm)
  -- The write side in `drain_pubrels`.
  | receive hphase hpubrels =>
    refine .of_same rfl ?_ rfl
    rw [owed_of_phase hphase, hpubrels]
    rfl
  | drained hphase hpubrels =>
    refine .of_same (released_congr (drained_written _ _)) ?_ (drained_inbound _ _)
    rw [owed_drained, owed_of_phase hphase]
    rfl
  | release hphase => exact .of_release rfl (owed_of_phase hphase) rfl
  -- The failures.
  | releaseFails hphase | writeFails hphase | disconnectFails hphase =>
    refine absurd rfl (hwrites ?_ ?_) <;> rw [hphase]
    · trivial
    · exact Phase.noConfusion
  | releaseIgnored hphase =>
    refine absurd (drained_written _ _) (hwrites ?_ ?_) <;> rw [hphase]
    · trivial
    · rcases drained_phase s _ with h | h | ⟨deadline, wake, h⟩
      all_goals
        rw [h]
        exact Phase.noConfusion
  -- The other writes.
  | write hphase | disconnect hphase =>
    refine .of_same ?_ ?_ rfl
    · exact (released_snoc rfl).trans (List.append_nil _)
    · rw [owed_of_phase hphase]
      rfl
  | quotaReached hphase | stopSeen hphase | haltPacing hphase | acquireClosed hphase
  | haltAcquiring hphase =>
    refine .of_same rfl ?_ rfl
    rw [owed_leave, owed_of_phase hphase]
    rfl
  | quotaLeft hphase | stopUnseen hphase | due hphase | unacknowledged hphase | acquire hphase
  | assign hphase | assignNone hphase | insert hphase | insertNone hphase | count hphase
  | forfeit hphase | settled hphase | unsettled hphase | wake hphase | joined hphase
  | timeout hphase =>
    refine .of_same rfl ?_ rfl
    rw [owed_of_phase hphase]
    rfl
  -- The ack side.
  | read _ hinbound => exact carries_onPacket hinbound
  | readEof _ hinbound | readError _ hinbound =>
    exact .of_read rfl (List.append_nil _).symm hinbound
  | complete | completeUnknown | freeRefused | free | close => exact .of_same rfl rfl rfl

/-! ### In the order of the PUBRECs -/

/-- What is released was handed over, in this order; as long as no write has failed, what is owed
is all the rest. -/
structure Relays (es : List Event) (x : Connection) : Prop where
  ordered : released x.state <+: handed es
  intact : x.broken = false → released x.state ++ owed x.state = handed es

/-- A write that fails releases nothing. -/
theorem released_of_fail {e : MqttError} (h : fail c e s = some s') : released s' = released s := by
  obtain ⟨phase, errors, rfl⟩ := frame_of_fail h
  rfl

/-- Written stays written. -/
theorem released_mono (hm : Move c s s') : released s <+: released s' := by
  rcases written_of_move hm with h | ⟨p, h, -⟩
  · exact (released_congr h).symm ▸ List.prefix_rfl
  · exact ⟨_, (released_snoc h).symm⟩

/-- **What a step of the connection preserves.** -/
theorem Relays.step {es : List Event} {x y : Connection} (h : Relays es x)
    (hstep : Connection.Step c x y) : Relays (es ++ events x.state y.state) y := by
  obtain ⟨a, ha, hwrites, hbroken⟩ := hstep
  have hlater : ∀ {ids}, ids <+: handed es → ids <+: handed (es ++ events x.state y.state) :=
    fun hids ↦ hids.trans (handed_append _ _ ▸ List.prefix_append _ _)
  by_cases hfail : ∃ e, a = .fail e
  · obtain ⟨e, rfl⟩ := hfail
    refine ⟨?_, fun hy ↦ absurd (hbroken.2 (Or.inr ⟨e, rfl⟩)) (Bool.eq_false_iff.1 hy)⟩
    rw [released_of_fail ha]
    exact hlater h.ordered
  · have hcarries := carries_of_step ha fun e he ↦ hfail ⟨e, he⟩
    by_cases hx : x.broken = false
    · have hintact : released y.state ++ owed y.state =
          handed (es ++ events x.state y.state) := by
        rw [hcarries, h.intact hx, handed_append]
      exact ⟨hintact ▸ List.prefix_append _ _, fun _ ↦ hintact⟩
    -- On a broken connection nothing is written.
    · have hwritten := written_eq_of_not_advance ha fun hadvance hwriting ↦
        hx (hwrites hadvance hwriting)
      rw [Bool.not_eq_false] at hx
      refine ⟨?_, fun hy ↦ absurd (hbroken.2 (Or.inl hx)) (Bool.eq_false_iff.1 hy)⟩
      rw [released_congr hwritten]
      exact hlater h.ordered

/-- Over whole runs, from the start of the connection. -/
theorem relays_of_runs {clock : ℕ} {es : List Event} {x : Connection}
    (h : Connection.Runs c (.initial c clock) es x) : Relays es x :=
  h.invariant ⟨List.nil_prefix, fun _ ↦ rfl⟩ fun _ _ _ h hstep ↦ h.step hstep

/-! ### Before the DISCONNECT

The drain before the DISCONNECT comes after the wait for the window; where the window was closed
there is neither. Its writes may fail without the publisher noticing, but then the DISCONNECT fails
as well. -/

/-- The DISCONNECT was written, or given up. -/
def Phase.IsClosed : Phase → Prop
  | .joining _ | .returned _ => True
  | _ => False

/-- The final call of `drain_pubrels` goes on. -/
def Phase.InLastDrain : Phase → Prop
  | .draining d | .releasing d _ => d = .last
  | _ => False

/-- The write side is past that call. -/
def Phase.PastDrains : Phase → Prop
  | .disconnecting | .joining _ | .returned _ => True
  | _ => False

theorem Phase.IsClosed.not_isWriting {phase : Phase} (h : phase.IsClosed) : ¬phase.IsWriting := by
  cases phase with
  | joining | returned => exact id
  | _ => exact h.elim

theorem Phase.IsClosed.pastDrains {phase : Phase} (h : phase.IsClosed) : phase.PastDrains := by
  cases phase with
  | joining | returned => trivial
  | _ => exact h.elim

/-- The last drain is over before the DISCONNECT. -/
theorem Phase.PastDrains.not_inLastDrain {phase : Phase} (h : phase.PastDrains) :
    ¬phase.InLastDrain := by
  cases phase with
  | disconnecting | joining | returned => exact id
  | _ => exact h.elim

/-- The write side writes nothing more. -/
theorem isClosed_of_move (h : s.phase.IsClosed) (hm : Move c s s') :
    s'.phase.IsClosed ∧ s'.written = s.written := by
  cases hm with
  | tick | deliver | raiseStop | dropStop | readEof | readError | complete | completeUnknown
  | freeRefused | free | close => exact ⟨h, rfl⟩
  | read =>
    rw [onPacket_phase, onPacket_written]
    exact ⟨h, rfl⟩
  | joined | timeout => exact ⟨trivial, rfl⟩
  | receive hphase | drained hphase | release hphase | releaseFails hphase
  | releaseIgnored hphase | quotaReached hphase | quotaLeft hphase | stopSeen hphase
  | stopUnseen hphase | due hphase | haltPacing hphase | unacknowledged hphase
  | acquireClosed hphase | acquire hphase | haltAcquiring hphase | assign hphase
  | assignNone hphase | insert hphase | insertNone hphase | write hphase | writeFails hphase
  | count hphase | forfeit hphase | settled hphase | unsettled hphase | wake hphase
  | disconnect hphase | disconnectFails hphase =>
    rw [hphase] at h
    exact h.elim

/-- A step that writes a DISCONNECT. -/
theorem phase_of_disconnect {r : ReasonCode} (hm : Move c s s')
    (h : s'.written = s.written ++ [.disconnect r]) :
    s.phase = .disconnecting ∧ s'.phase.IsClosed := by
  have hsame : s'.written ≠ s.written := fun hsame ↦ by
    rw [hsame] at h
    simp at h
  cases hm with
  | release | write => cases List.append_cancel_left h
  | disconnect hphase => exact ⟨hphase, trivial⟩
  | drained | releaseIgnored => exact absurd (drained_written _ _) hsame
  | read => exact absurd (onPacket_written _ _) hsame
  | _ => exact absurd rfl hsame

/-- A DISCONNECT is the last thing written, on a connection whose writes have not failed. -/
def DisconnectLast (x : Connection) : Prop :=
  ∀ before r after, x.state.written = before ++ .disconnect r :: after →
    after = [] ∧ x.state.phase.IsClosed ∧ x.broken = false

theorem DisconnectLast.step {x y : Connection} (h : DisconnectLast x)
    (hstep : Connection.Step c x y) : DisconnectLast y := by
  obtain ⟨a, ha, hwrites, hbroken⟩ := hstep
  have hm := move_of_step ⟨a, ha⟩
  intro before r after hy
  by_cases hclosed : x.state.phase.IsClosed
  · obtain ⟨hclosed', hwritten⟩ := isClosed_of_move hclosed hm
    obtain ⟨hlast, -, hintact⟩ := h before r after (hwritten ▸ hy)
    refine ⟨hlast, hclosed', Bool.eq_false_iff.2 fun hy ↦ ?_⟩
    rcases hbroken.1 hy with hx | ⟨e, rfl⟩
    · exact Bool.eq_false_iff.1 hintact hx
    · exact hclosed.not_isWriting (isWriting_of_fail ha)
  · have hnone : ∀ before after, x.state.written ≠ before ++ .disconnect r :: after :=
      fun before after hx ↦ hclosed (h before r after hx).2.1
    rcases written_of_move hm with hsame | ⟨p, hsnoc, -⟩
    · exact absurd (hsame ▸ hy) (hnone before after)
    · rw [hsnoc] at hy
      rcases List.eq_nil_or_concat after with rfl | ⟨after', q, rfl⟩
      · obtain ⟨rfl, hp⟩ := List.append_inj' hy rfl
        obtain ⟨hphase, hclosed'⟩ := phase_of_disconnect hm (hp ▸ hsnoc)
        have hwriting : x.state.phase.IsWriting := by
          rw [hphase]
          trivial
        have hsnoc' : y.state.written ≠ x.state.written := fun hsame ↦ by
          rw [hsame] at hsnoc
          simp at hsnoc
        have hadvance : a = .advance := by
          by_contra hne
          exact hsnoc' (written_eq_of_not_advance ha fun h ↦ absurd h hne)
        refine ⟨rfl, hclosed', Bool.eq_false_iff.2 fun hy ↦ ?_⟩
        rcases hbroken.1 hy with hx | ⟨e, rfl⟩
        · exact Bool.eq_false_iff.1 (hwrites hadvance hwriting) hx
        · cases hadvance
      · rw [List.concat_eq_append, ← List.cons_append, ← List.append_assoc] at hy
        exact absurd (List.append_inj' hy rfl).1 (hnone before after')

/-- Once the write side is closed, the DISCONNECT is the last packet written. -/
theorem disconnectLast_of_runs {clock : ℕ} {es : List Event} {x : Connection}
    (h : Connection.Runs c (.initial c clock) es x) : DisconnectLast x :=
  h.invariant (I := fun _ x ↦ DisconnectLast x) (fun before r after hnil ↦ by
    cases List.append_eq_nil_iff.1 hnil.symm with
    | intro _ hcons => cases hcons) fun _ _ _ h hstep ↦ h.step hstep

/-- In a step that is not a failure, the final drain goes on, or nothing is owed. -/
theorem inLastDrain_of_step (ha : step c s a = some s') (hfail : ∀ e, a ≠ .fail e)
    (h : s.phase.InLastDrain) :
    s'.phase.InLastDrain ∨ owed s = [] ∧ released s' = released s := by
  have hwrites := fun hw hne ↦ written_of_isWriting ha hfail hw hne
  cases move_of_step ⟨a, ha⟩ with
  | tick | deliver | raiseStop | dropStop | readEof | readError | complete | completeUnknown
  | freeRefused | free | close => exact Or.inl h
  | read =>
    rw [onPacket_phase]
    exact Or.inl h
  | receive hphase _ | release hphase =>
    rw [hphase] at h
    exact Or.inl h
  | drained hphase hpubrels =>
    refine Or.inr ⟨?_, released_congr (drained_written _ _)⟩
    rw [owed_of_phase hphase, hpubrels]
    rfl
  | releaseFails hphase =>
    rw [hphase] at h
    exact Drain.noConfusion h
  | releaseIgnored hphase =>
    refine absurd (drained_written _ _) (hwrites ?_ ?_) <;> rw [hphase]
    · trivial
    · rcases drained_phase s _ with hs | hs | ⟨deadline, wake, hs⟩
      all_goals
        rw [hs]
        exact Phase.noConfusion
  | quotaReached hphase | quotaLeft hphase | stopSeen hphase | stopUnseen hphase | due hphase
  | haltPacing hphase | unacknowledged hphase | acquireClosed hphase | acquire hphase
  | haltAcquiring hphase | assign hphase | assignNone hphase | insert hphase | insertNone hphase
  | write hphase | writeFails hphase | count hphase | forfeit hphase | settled hphase
  | unsettled hphase | wake hphase | disconnect hphase | disconnectFails hphase | joined hphase
  | timeout hphase =>
    rw [hphase] at h
    exact h.elim

/-- The final drain goes on, or has released what was handed over before it. -/
def Drains (handedBefore : List PacketId) (x : Connection) : Prop :=
  x.broken = false → x.state.phase.InLastDrain ∨ handedBefore <+: released x.state

/-- **What a step preserves once the final drain has begun.** It ends only where nothing is owed. -/
theorem Drains.step {es : List Event} {ids : List PacketId} {x y : Connection}
    (h : Drains ids x) (hrelays : Relays es x) (hids : ids <+: handed es)
    (hstep : Connection.Step c x y) : Drains ids y := by
  obtain ⟨a, ha, hwrites, hbroken⟩ := hstep
  intro hy
  have hfail : ∀ e, a ≠ .fail e := fun e he ↦
    Bool.eq_false_iff.1 hy (hbroken.2 (Or.inr ⟨e, he⟩))
  have hx : x.broken = false := Bool.eq_false_iff.2 fun hx ↦
    Bool.eq_false_iff.1 hy (hbroken.2 (Or.inl hx))
  have hm := move_of_step ⟨a, ha⟩
  rcases h hx with hlast | hdone
  · refine (inLastDrain_of_step ha hfail hlast).imp_right fun ⟨howed, hreleased⟩ ↦ ?_
    have hintact := hrelays.intact hx
    rw [howed, List.append_nil] at hintact
    rw [hreleased, hintact]
    exact hids
  · exact Or.inr (hdone.trans (released_mono hm))

/-- Through the rest of a run. -/
theorem drains_of_runs {clock : ℕ} {es fs : List Event} {x y : Connection}
    (hx : Connection.Runs c (.initial c clock) es x) (hphase : x.state.phase = .draining .last)
    (hy : Connection.Runs c x fs y) : Drains (handed es) y := by
  have hrun : Relays (es ++ fs) y ∧ Drains (handed es) y := by
    refine hy.invariant (I := fun fs y ↦ Relays (es ++ fs) y ∧ Drains (handed es) y) ⟨?_, ?_⟩
      fun fs y z ⟨hrelays, hdrains⟩ hstep ↦ ⟨?_, ?_⟩
    · rw [List.append_nil]
      exact relays_of_runs hx
    · refine fun _ ↦ Or.inl ?_
      rw [hphase]
      rfl
    · rw [← List.append_assoc]
      exact hrelays.step hstep
    · exact hdrains.step hrelays (handed_append _ _ ▸ List.prefix_append _ _) hstep
  exact hrun.2

/-- **PUBRELs follow PUBRECs exactly and in order**, on a connection on which every write fails once
one has. At any time the identifiers of the PUBRELs written are, in order, the first of those of the
PUBRECs received without an error code; no PUBREL is written after the DISCONNECT; and what was
handed over before the final drain began, or while it looks again, is all released before the
DISCONNECT, unless a write fails. -/
theorem relays (c : Setting) (clock : ℕ) :
    (∀ es x, Connection.Runs c (.initial c clock) es x → released x.state <+: handed es ∧
      ∀ before r after, x.state.written = before ++ .disconnect r :: after →
        ∀ a, Packet.pubrel a ∉ after) ∧
    ∀ es x fs y, Connection.Runs c (.initial c clock) es x → x.state.phase = .draining .last →
      Connection.Runs c x fs y →
      ((∃ r, .disconnect r ∈ y.state.written) ∨ y.broken = false ∧ y.state.phase.PastDrains) →
      handed es <+: released y.state := by
  refine ⟨fun es x h ↦ ⟨(relays_of_runs h).ordered, fun before r after hwritten a ha ↦ ?_⟩,
    fun es x fs y hx hphase hy hend ↦ ?_⟩
  · rw [(disconnectLast_of_runs h before r after hwritten).1] at ha
    cases ha
  · have hdrains := drains_of_runs hx hphase hy
    have hpast : y.broken = false ∧ y.state.phase.PastDrains := by
      refine hend.elim (fun ⟨r, hr⟩ ↦ ?_) id
      obtain ⟨before, after, hwritten⟩ := List.append_of_mem hr
      obtain ⟨-, hclosed, hintact⟩ :=
        disconnectLast_of_runs (hx.trans hy) before r after hwritten
      exact ⟨hintact, hclosed.pastDrains⟩
    exact (hdrains hpast.1).resolve_left hpast.2.not_inLastDrain

end Publisher

end Bench

end PulsemqCli
