import PulsemqCli.Bench.Publisher.Conservation

/-!
# The handshake of a QoS 2 message

At QoS 2 a message leaves the window with the PUBCOMP that ends its handshake, or with the PUBREC
that refuses it. `complete_ack` only looks whether the identifier is in flight, and its callers do
not look at the QoS: where the handshake stands is left to the broker. A broker that conforms gets
full handshakes. One that does not can free a message's slot with any acknowledgement.

An identifier is used again once they wrap. That does no harm where nothing is outstanding under it
any more, neither a PUBREL that is due nor an acknowledgement that is not looked up; with a broker
that conforms it takes a wrap to come to anything else.

The history of a publisher interleaves what its two sides did. `Since` picks out of it what concerns
one identifier after the PUBLISH written last under it, and the handshake is stated with it: a
message is `Completed` with PUBLISH, PUBREC, PUBREL and PUBCOMP in this order, or `Refused` with a
PUBREC that is an error. `InPhase` is what the broker is asked for, that each of its packets answers
one of these.

Under one identifier several messages can have been sent, one after the other. What an
acknowledgement that arrives late would end is the newer message, and so the property needs each
identifier to be at rest when it is used: every PUBREL it was due is written, every acknowledgement
that was read is looked up (`AtRest`). This is `UsedAtRest`, a condition on the history alone. A run
of no more than 65535 messages meets it in any case (`usedAtRest_of_entered`), and so does any
longer one in which no identifier comes back too soon.

`Phased` is the invariant for the events that answer each other, and `Tallied` counts what is under
way for each identifier: it is what says that at rest nothing is. Both are kept entry by entry of
the ledger, and `ends_of_inPhase` follows.
-/

namespace PulsemqCli

namespace Bench

namespace Publisher

open Protocol Transition

/-! ### Handshakes in a history

All of it is about events: what was written, read and looked up. `Since` has an order of events as a
sublist, so that whatever else came in between does not matter. An acknowledgement is looked up
after it was read, and other packets can not be read in between; so the packet read last is the one
that frees a slot. -/

/-- Since the last PUBLISH under `id` was written, the given events came, in this order. -/
def Since (id : PacketId) (order es : List Event) : Prop :=
  ∃ before p after, es = before ++ .wrote (.publish p) :: after ∧ p.packetId = some id ∧
    (∀ p', .wrote (.publish p') ∈ after → p'.packetId ≠ some id) ∧ order.Sublist after

/-- What was read last. -/
def lastRead (es : List Event) : Option Inbound :=
  (es.filterMap fun | .read x => some x | _ => none).getLast?

/-- A PUBCOMP just read ended a full handshake. -/
def Completed (id : PacketId) (code : ReasonCode) (es : List Event) : Prop :=
  lastRead es = some (.packet (.pubcomp ⟨id, code⟩)) ∧
    ∃ received : ReasonCode, received.isError = false ∧ Since id
      [.read (.packet (.pubrec ⟨id, received⟩)), .wrote (.pubrel ⟨id, .success⟩),
        .read (.packet (.pubcomp ⟨id, code⟩))] es

/-- A PUBREC just read refused the message. -/
def Refused (id : PacketId) (code : ReasonCode) (es : List Event) : Prop :=
  lastRead es = some (.packet (.pubrec ⟨id, code⟩)) ∧ code.isError = true ∧
    Since id [.read (.packet (.pubrec ⟨id, code⟩))] es

/-- An acknowledgement frees the slot of a message only if it ends its handshake. -/
def Ends (before : List Event) : Event → Prop
  | .lookedUp id code true => Completed id code before ∨ Refused id code before
  | _ => True

/-- What a broker that conforms sends: no PUBACK, a PUBREC only for a PUBLISH it was sent, and a
PUBCOMP only for a PUBREL it was sent since. -/
def InPhase (before : List Event) : Event → Prop
  | .read (.packet (.puback _)) => False
  | .read (.packet (.pubrec a)) => Since a.packetId [] before
  | .read (.packet (.pubcomp a)) =>
    Since a.packetId [.wrote (.pubrel ⟨a.packetId, .success⟩)] before
  | _ => True

/-- A PUBREC is read that is to be answered with a PUBREL. -/
def Event.receives (id : PacketId) : Event → Bool
  | .read (.packet (.pubrec a)) => a.packetId = id && !a.reasonCode.isError
  | _ => false

/-- A PUBREL is written. -/
def Event.releases (id : PacketId) : Event → Bool
  | .wrote (.pubrel a) => a.packetId = id
  | _ => false

/-- An acknowledgement is read that ends a message's flow. -/
def Event.answers (id : PacketId) : Event → Bool
  | .read (.packet p) => (terminal p).any (·.1 = id)
  | _ => false

/-- An acknowledgement that ends a message's flow is looked up. -/
def Event.looksUp (id : PacketId) : Event → Bool
  | .lookedUp id' _ _ => id' = id
  | _ => false

/-- Nothing that was read under an identifier is outstanding: the PUBRECs are answered, and the
acknowledgements that end a flow are looked up. -/
def AtRest (id : PacketId) (es : List Event) : Prop :=
  es.countP (Event.receives id) ≤ es.countP (Event.releases id) ∧
    es.countP (Event.answers id) ≤ es.countP (Event.looksUp id)

/-- An identifier is used, or used again, with nothing outstanding under it. -/
def UsedAtRest (before : List Event) : Event → Prop
  | .wrote (.publish p) => ∀ id, p.packetId = some id → AtRest id before
  | _ => True

/-- A message is entered in flight. -/
def Event.enters : Event → Bool
  | .entered _ => true
  | _ => false

section Since

variable {id : PacketId} {order es : List Event} {e : Event}

/-- What is about other identifiers comes after what came before. -/
theorem Since.append (h : Since id order es)
    (he : ∀ p, e = .wrote (.publish p) → p.packetId ≠ some id) : Since id order (es ++ [e]) := by
  obtain ⟨before, p, after, rfl, hid, hafter, horder⟩ := h
  refine ⟨before, p, after ++ [e], List.append_assoc _ _ _, hid, fun p' hp' ↦ ?_,
    horder.trans (List.sublist_append_left _ _)⟩
  rcases List.mem_append.1 hp' with hmem | hmem
  · exact hafter p' hmem
  · exact he p' (List.mem_singleton.1 hmem).symm

/-- An event that is no PUBLISH is the last to have come since. -/
theorem Since.snoc (h : Since id order es) (he : ∀ p, e ≠ .wrote (.publish p)) :
    Since id (order ++ [e]) (es ++ [e]) := by
  obtain ⟨before, p, after, rfl, hid, hafter, horder⟩ := h
  refine ⟨before, p, after ++ [e], List.append_assoc _ _ _, hid, fun p' hp' ↦ ?_,
    horder.append (List.Sublist.refl _)⟩
  rcases List.mem_append.1 hp' with hmem | hmem
  · exact hafter p' hmem
  · exact absurd (List.mem_singleton.1 hmem).symm (he p')

/-- What came since a PUBLISH came after one. -/
theorem Since.published (h : Since id order es) :
    ∃ p, .wrote (.publish p) ∈ es ∧ p.packetId = some id := by
  obtain ⟨before, p, after, rfl, hid, -, -⟩ := h
  exact ⟨p, List.mem_append_right _ List.mem_cons_self, hid⟩

/-- What came since is in the history. -/
theorem Since.mem (h : Since id order es) {e : Event} (he : e ∈ order) : e ∈ es := by
  obtain ⟨before, p, after, rfl, -, -, horder⟩ := h
  exact List.mem_append_right _ (List.mem_cons_of_mem _ (horder.subset he))

/-- What came since the last PUBLISH came before a last event that is another. -/
theorem Since.of_snoc {x : Event} (h : Since id [x] (es ++ [e])) (hx : e ≠ x)
    (he : ∀ p, e = .wrote (.publish p) → p.packetId ≠ some id) : Since id [x] es := by
  obtain ⟨before, p, after, heq, hid, hafter, horder⟩ := h
  rcases List.eq_nil_or_concat after with rfl | ⟨after, e', rfl⟩
  · obtain ⟨-, hlast⟩ := List.append_inj' heq rfl
    exact absurd hid (he p (List.singleton_inj.1 hlast))
  · rw [List.concat_eq_append] at heq hafter horder
    rw [← List.cons_append, ← List.append_assoc] at heq
    obtain ⟨rfl, hlast⟩ := List.append_inj' heq rfl
    obtain rfl := List.singleton_inj.1 hlast
    refine ⟨before, p, after, rfl, hid, fun p' hp' ↦ hafter p' (List.mem_append_left _ hp'), ?_⟩
    have hmem := List.mem_append.1 (List.singleton_sublist.1 horder)
    exact List.singleton_sublist.2 <|
      hmem.resolve_right fun hmem ↦ hx (List.mem_singleton.1 hmem).symm

/-- Nothing came since a PUBLISH that is last. -/
theorem not_since_snoc {x : Event} {p : Publish} (hid : p.packetId = some id) :
    ¬Since id [x] (es ++ [.wrote (.publish p)]) := by
  rintro ⟨before, p', after, heq, -, hafter, horder⟩
  rcases List.eq_nil_or_concat after with rfl | ⟨after, e', rfl⟩
  · exact absurd (List.singleton_sublist.1 horder) List.not_mem_nil
  · rw [List.concat_eq_append] at heq hafter
    rw [← List.cons_append, ← List.append_assoc] at heq
    obtain ⟨-, hlast⟩ := List.append_inj' heq rfl
    refine hafter p (List.mem_append_right _ ?_) hid
    rw [← List.singleton_inj.1 hlast]
    exact List.mem_singleton_self _

end Since

/-- A packet that is read is the one read last. -/
theorem lastRead_snoc (es : List Event) (x : Inbound) :
    lastRead (es ++ [.read x]) = some x := by
  rw [lastRead, List.filterMap_append]
  exact List.getLast?_concat ..

theorem lastRead_append {es : List Event} {e : Event} (he : ∀ x, e ≠ .read x) :
    lastRead (es ++ [e]) = lastRead es := by
  have hnone : [e].filterMap (fun | .read x => some x | _ => none) = ([] : List Inbound) := by
    cases e with
    | read x => exact absurd rfl (he x)
    | _ => rfl
  rw [lastRead, List.filterMap_append, hnone, List.append_nil, lastRead]

/-! ### The identifiers in a history

As long as no more than 65535 messages were entered, the message that is entered next has the number
of those before it, plus one, as its identifier. This gives the short condition on a run under which
an identifier is used once. -/

/-- The messages entered in flight. -/
def entered (es : List Event) : ℕ :=
  es.countP Event.enters

/-- Whether an identifier is assigned to a message that is not entered. -/
def Stage.pending : Stage → ℕ
  | .assigned _ _ => 1
  | _ => 0

/-- Whether a message is entered that is not written. -/
def Stage.unwritten : Stage → ℕ
  | .entered _ => 1
  | _ => 0

/-- The identifiers follow each other as the messages do, and until they wrap those written come
before the one being sent. -/
structure Sequenced (es : List Event) (l : Ledger) : Prop where
  next : l.nextPacketId = nextId^[entered es + l.stage.pending] 0
  assigned : l.Labelled
  labelled : ∀ p, l.stage = .entered p → p.packetId = some l.nextPacketId ∧ 0 < entered es
  written : entered es ≤ 65535 → ∀ p id, .wrote (.publish p) ∈ es → p.packetId = some id →
    id.toNat + l.stage.unwritten ≤ entered es

variable {es fs : List Event} {l l' : Ledger}

/-- Messages are entered event by event. -/
theorem entered_append (es fs : List Event) : entered (es ++ fs) = entered es + entered fs :=
  List.countP_append

/-- An entry that neither enters nor writes a message. -/
theorem Sequenced.of_other (h : Sequenced es l) (hnext : l'.nextPacketId = l.nextPacketId)
    (hpending : l'.stage.pending = l.stage.pending)
    (hunwritten : l'.stage.unwritten ≤ l.stage.unwritten)
    (hassigned : l'.Labelled)
    (hlabelled : ∀ p, l'.stage = .entered p → l.stage = .entered p) (hentered : entered fs = 0)
    (hwritten : ∀ p, .wrote (.publish p) ∉ fs) : Sequenced (es ++ fs) l' := by
  obtain ⟨hnext', -, hlabelled', hwritten'⟩ := h
  have hsame : entered (es ++ fs) = entered es := by rw [entered_append, hentered, Nat.add_zero]
  refine ⟨?_, hassigned, fun p hp ↦ ?_, fun hrange p id hmem hid ↦ ?_⟩
  · rw [hnext, hsame, hpending, hnext']
  · rw [hnext, hsame]
    exact hlabelled' p (hlabelled p hp)
  · rw [hsame] at hrange ⊢
    have hmem' := (List.mem_append.1 hmem).resolve_right (hwritten p)
    exact (Nat.add_le_add_left hunwritten _).trans (hwritten' hrange p id hmem' hid)

/-- The identifier of the message being written is the number of messages entered. -/
theorem Sequenced.toNat_nextPacketId (h : Sequenced es l) {p : Publish}
    (hstage : l.stage = .entered p) (hrange : entered es ≤ 65535) :
    l.nextPacketId.toNat = entered es := by
  have hnext := h.next
  have hpos := (h.labelled p hstage).2
  obtain ⟨n, hn⟩ := Nat.exists_eq_succ_of_ne_zero hpos.ne'
  rw [hstage] at hnext
  rw [hnext, hn]
  show (nextId^[n + 1] 0).toNat = n + 1
  rw [toNat_nextId_iterate, Nat.mod_eq_of_lt (by omega)]

/-- **An entry keeps the identifiers in sequence.** -/
theorem Sequenced.entry (h : Sequenced es l) (hentry : Ledger.Entry l fs l') :
    Sequenced (es ++ fs) l' := by
  have hassigned := h.assigned.entry hentry
  cases hentry with
  | nothing | dropRelease | freeRefused | free =>
    exact h.of_other rfl rfl le_rfl hassigned (fun _ hp ↦ hp) rfl fun _ ↦ List.not_mem_nil
  | disconnect | release | ignore | owe | hear | find | miss =>
    refine h.of_other rfl rfl le_rfl hassigned (fun _ hp ↦ hp) rfl fun p hp ↦ ?_
    cases List.mem_singleton.1 hp
  | acquire hstage | count hstage | forfeit hstage | giveUp hstage | finish hstage
  | abort hstage | fail hstage =>
    refine h.of_other rfl ?_ (Nat.zero_le _) hassigned (fun _ hp ↦ Stage.noConfusion hp) rfl
      fun _ ↦ List.not_mem_nil
    rw [hstage]
    rfl
  | assign now hstage =>
    obtain ⟨hnext, -, -, hwritten⟩ := h
    rw [hstage] at hnext hwritten
    rw [List.append_nil]
    refine ⟨?_, hassigned, fun _ hp ↦ Stage.noConfusion hp, hwritten⟩
    show nextId l.nextPacketId = nextId^[entered es + 1] 0
    rw [hnext, Function.iterate_succ_apply']
    rfl
  | @enter p now id hstage hid =>
    obtain ⟨hnext, hlabelled, -, hwritten⟩ := h
    have hsame : entered (es ++ [.entered id]) = entered es + 1 := entered_append es _
    have hp := hlabelled p now hstage
    rw [hstage] at hnext hwritten
    refine ⟨?_, hassigned, fun p' hp' ↦ ?_, fun hrange p' id' hmem hid' ↦ ?_⟩
    · rw [hsame]
      exact hnext
    · cases hp'
      exact ⟨hp, by omega⟩
    · rw [hsame] at hrange ⊢
      have hmem' : .wrote (.publish p') ∈ es := by simpa using hmem
      exact Nat.succ_le_succ (hwritten (by omega) p' id' hmem' hid')
  | @write p hstage =>
    obtain ⟨hp, hpos⟩ := h.labelled p hstage
    have htoNat := h.toNat_nextPacketId hstage
    obtain ⟨hnext, -, -, hwritten⟩ := h
    have hsame : entered (es ++ [.wrote (.publish p)]) = entered es := entered_append es _
    rw [hstage] at hnext hwritten
    refine ⟨?_, hassigned, fun _ hp ↦ Stage.noConfusion hp, fun hrange p' id' hmem hid' ↦ ?_⟩
    · rw [hsame]
      exact hnext
    · rw [hsame] at hrange ⊢
      rcases List.mem_append.1 hmem with hmem | hmem
      · exact (Nat.le_succ _).trans (hwritten hrange p' id' hmem hid')
      · cases List.mem_singleton.1 hmem
        obtain rfl := Option.some.inj (hp.symm.trans hid')
        exact (htoNat hrange).le

/-! ### Handshakes with a broker that conforms

Two invariants in one induction over the ledger's entries. `Phased` says that a PUBREL is due, or
was written, only after a PUBREC, and that the acknowledgement being looked up ends a handshake;
`Tallied` counts, per identifier, how many PUBRECs are not answered and how many acknowledgements
are not looked up. -/

/-- Where the handshakes stand. -/
structure Phased (es : List Event) (l : Ledger) : Prop where
  pubrels : ∀ id ∈ l.pubrels, ∃ received : ReasonCode, received.isError = false ∧
    Since id [.read (.packet (.pubrec ⟨id, received⟩))] es
  released : ∀ id, Since id [.wrote (.pubrel ⟨id, .success⟩)] es → ∃ received : ReasonCode,
    received.isError = false ∧ Since id
      [.read (.packet (.pubrec ⟨id, received⟩)), .wrote (.pubrel ⟨id, .success⟩)] es
  completing : ∀ id code, l.work = .completing id code → Completed id code es ∨ Refused id code es
  ends : Throughout Ends es

/-- An entry that shows nothing. -/
theorem Phased.of_silent (h : Phased es l) (hpubrels : ∀ id ∈ l'.pubrels, id ∈ l.pubrels)
    (hwork : ∀ id code, l'.work = .completing id code → l.work = .completing id code) :
    Phased es l' :=
  ⟨fun id hid ↦ h.pubrels id (hpubrels id hid), h.released,
    fun id code hcode ↦ h.completing id code (hwork id code hcode), h.ends⟩

/-- What an acknowledgement ends stays ended until the next is read. -/
theorem completed_or_refused_append {id : PacketId} {code : ReasonCode} {e : Event}
    (h : Completed id code es ∨ Refused id code es)
    (hsince : ∀ order, Since id order es → Since id order (es ++ [e]))
    (hread : ∀ x, e ≠ .read x) :
    Completed id code (es ++ [e]) ∨ Refused id code (es ++ [e]) := by
  have hlast : lastRead (es ++ [e]) = lastRead es := lastRead_append hread
  rcases h with ⟨hcomp, received, hreceived, hsinceComp⟩ | ⟨hrec, hcode, hsinceRec⟩
  · exact Or.inl ⟨hlast.trans hcomp, received, hreceived, hsince _ hsinceComp⟩
  · exact Or.inr ⟨hlast.trans hrec, hcode, hsince _ hsinceRec⟩

/-- An entry that shows an event of neither a handshake nor the ack side, and is no PUBLISH of an
identifier under which something is outstanding. -/
theorem Phased.of_event {e : Event} (h : Phased es l)
    (hpublish : ∀ p, e = .wrote (.publish p) → ∀ id, p.packetId = some id →
      id ∉ l.pubrels ∧ ∀ code, l.work ≠ .completing id code)
    (hread : ∀ x, e ≠ .read x) (hpubrel : ∀ a, e ≠ .wrote (.pubrel a)) (hends : Ends es e)
    (hpubrels : ∀ id ∈ l'.pubrels, id ∈ l.pubrels)
    (hwork : ∀ id code, l'.work = .completing id code → l.work = .completing id code) :
    Phased (es ++ [e]) l' := by
  refine ⟨fun id hid ↦ ?_, fun id hid ↦ ?_, fun id code hcode ↦ ?_,
    throughout_snoc.2 ⟨h.ends, hends⟩⟩
  · obtain ⟨received, hreceived, hrec⟩ := h.pubrels id (hpubrels id hid)
    refine ⟨received, hreceived, hrec.append fun p hp hsame ↦ ?_⟩
    exact (hpublish p hp id hsame).1 (hpubrels id hid)
  · have hother : ∀ p, e = .wrote (.publish p) → p.packetId ≠ some id := by
      rintro p rfl hsame
      exact not_since_snoc hsame hid
    obtain ⟨received, hreceived, hrel⟩ := h.released id (hid.of_snoc (hpubrel _) hother)
    exact ⟨received, hreceived, hrel.append hother⟩
  · have hcode' := hwork id code hcode
    refine completed_or_refused_append (h.completing id code hcode') (fun order hes ↦ ?_) hread
    exact hes.append fun p hp hsame ↦ (hpublish p hp id hsame).2 code hcode'

/-- An entry of the ack side that reads, and completes what it reads if it is in phase. -/
theorem Phased.of_read {x : Inbound} (h : Phased es l)
    (hpubrels : ∀ id ∈ l'.pubrels, id ∈ l.pubrels ∨ ∃ received : ReasonCode,
      received.isError = false ∧ x = .packet (.pubrec ⟨id, received⟩) ∧ Since id [] es)
    (hwork : ∀ id code, l'.work = .completing id code →
      Completed id code (es ++ [.read x]) ∨ Refused id code (es ++ [.read x])) :
    Phased (es ++ [.read x]) l' := by
  have hother : ∀ {id : PacketId} (p : Publish), Event.read x = .wrote (.publish p) →
      p.packetId ≠ some id := fun p hp ↦ Event.noConfusion hp
  refine ⟨fun id hid ↦ ?_, fun id hid ↦ ?_, hwork, throughout_snoc.2 ⟨h.ends, trivial⟩⟩
  · rcases hpubrels id hid with hmem | ⟨received, hreceived, rfl, hpublished⟩
    · obtain ⟨received, hreceived, hrec⟩ := h.pubrels id hmem
      exact ⟨received, hreceived, hrec.append hother⟩
    · exact ⟨received, hreceived, hpublished.snoc fun p hp ↦ Event.noConfusion hp⟩
  · obtain ⟨received, hreceived, hrel⟩ :=
      h.released id (hid.of_snoc (fun h ↦ Event.noConfusion h) hother)
    exact ⟨received, hreceived, hrel.append hother⟩

/-- What is under way under an identifier was read, and neither answered nor looked up. -/
structure Tallied (es : List Event) (l : Ledger) : Prop where
  pubrels : ∀ id, l.pubrels.count id + es.countP (Event.releases id) ≤
    es.countP (Event.receives id)
  work : ∀ id code, l.work = .completing id code →
    es.countP (Event.looksUp id) < es.countP (Event.answers id)
  answered : ∀ id, es.countP (Event.looksUp id) ≤ es.countP (Event.answers id)

/-- An entry that shows nothing lets what is under way grow nowhere. -/
theorem Tallied.of_silent (h : Tallied es l) (hpubrels : ∀ id, l'.pubrels.count id ≤
    l.pubrels.count id) (hwork : ∀ id code, l'.work = .completing id code →
      l.work = .completing id code) : Tallied (es ++ []) l' := by
  rw [List.append_nil]
  exact ⟨fun id ↦ (Nat.add_le_add_right (hpubrels id) _).trans (h.pubrels id),
    fun id code hcode ↦ h.work id code (hwork id code hcode), h.answered⟩

/-- An entry that shows an event that is none of those that are counted. -/
theorem Tallied.of_other {e : Event} (h : Tallied es l)
    (he : ∀ id, e.receives id = false ∧ e.releases id = false ∧ e.answers id = false ∧
      e.looksUp id = false) (hpubrels : l'.pubrels = l.pubrels) (hwork : l'.work = l.work) :
    Tallied (es ++ [e]) l' := by
  have hcount : ∀ {p : Event → Bool}, p e = false → (es ++ [e]).countP p = es.countP p := by
    intro p hp
    rw [List.countP_append, List.countP_singleton, hp]
    rfl
  refine ⟨fun id ↦ ?_, fun id code hcode ↦ ?_, fun id ↦ ?_⟩
  · rw [hpubrels, hcount (he id).1, hcount (he id).2.1]
    exact h.pubrels id
  · rw [hwork] at hcode
    rw [hcount (he id).2.2.1, hcount (he id).2.2.2]
    exact h.work id code hcode
  · rw [hcount (he id).2.2.1, hcount (he id).2.2.2]
    exact h.answered id

/-- **An entry keeps the tally.** -/
theorem Tallied.entry (h : Tallied es l) (hentry : Ledger.Entry l fs l') :
    Tallied (es ++ fs) l' := by
  cases hentry with
  | nothing | acquire | assign | fail | count | forfeit | finish =>
    exact h.of_silent (fun _ ↦ le_rfl) fun _ _ hcode ↦ hcode
  | abort | freeRefused | free =>
    exact h.of_silent (fun _ ↦ le_rfl) fun _ _ hcode ↦ Work.noConfusion hcode
  | dropRelease hpubrels | giveUp _ hpubrels =>
    refine h.of_silent (fun id ↦ ?_) fun _ _ hcode ↦ hcode
    rw [hpubrels]
    exact List.count_le_count_cons ..
  | disconnect | enter | write =>
    exact h.of_other (fun _ ↦ ⟨rfl, rfl, rfl, rfl⟩) rfl rfl
  | @release id rest hpubrels =>
    obtain ⟨hrels, hwork, hanswered⟩ := h
    refine ⟨fun id' ↦ ?_, fun id' code hcode ↦ ?_, fun id' ↦ ?_⟩
    · have hle := hrels id'
      rw [hpubrels, List.count_cons] at hle
      simp only [List.countP_append, List.countP_singleton, Event.receives, Event.releases]
      simp only [beq_iff_eq, decide_eq_true_eq] at hle ⊢
      show rest.count id' + _ ≤ _
      split at hle
      · simp_all
        omega
      · simp_all
    · simpa [List.countP_append, Event.looksUp, Event.answers] using hwork id' code hcode
    · simpa [List.countP_append, Event.looksUp, Event.answers] using hanswered id'
  | @ignore x hidle hterminal hpubrec =>
    refine h.of_other (fun id ↦ ⟨?_, rfl, ?_, rfl⟩) rfl rfl
    · cases x with
      | packet p =>
        cases p with
        | pubrec a => exact absurd rfl (hpubrec a)
        | _ => rfl
      | _ => rfl
    · cases x with
      | packet p =>
        rw [Event.answers, hterminal p rfl]
        rfl
      | _ => rfl
  | @owe a hidle hcode =>
    obtain ⟨hrels, -, hanswered⟩ := h
    refine ⟨fun id ↦ ?_, fun id code hwork ↦ absurd (hidle.symm.trans hwork) nofun, fun id ↦ ?_⟩
    · have hle := hrels id
      simp only [List.countP_append, List.countP_singleton, Event.receives, Event.releases,
        List.count_append, List.count_singleton, hcode]
      by_cases hid : a.packetId = id <;> simp [hid] <;> omega
    · simpa [List.countP_append, Event.looksUp, Event.answers, terminal, hcode] using hanswered id
  | @hear p id code hidle hterminal =>
    obtain ⟨hrels, -, hanswered⟩ := h
    have hanswers : ∀ id', Event.answers id' (.read (.packet p)) = decide (id = id') := by
      intro id'
      rw [Event.answers, hterminal]
      rfl
    refine ⟨fun id' ↦ ?_, fun id' code' hwork ↦ ?_, fun id' ↦ ?_⟩
    · rw [List.countP_append, List.countP_append]
      exact (hrels id').trans (Nat.le_add_right _ _)
    · cases hwork
      rw [List.countP_append, List.countP_append, List.countP_singleton (p := Event.answers id),
        hanswers]
      have hle := hanswered id
      simp [Event.looksUp]
      omega
    · rw [List.countP_append, List.countP_append]
      exact (hanswered id').trans (Nat.le_add_right _ _)
  | @find id code hwork hmem | @miss id code hwork hmem =>
    obtain ⟨hrels, hlooked, hanswered⟩ := h
    have hlt := hlooked id code hwork
    refine ⟨fun id' ↦ ?_, fun _ _ hcode ↦ Work.noConfusion hcode, fun id' ↦ ?_⟩
    · simpa [List.countP_append, Event.receives, Event.releases] using hrels id'
    · have hle := hanswered id'
      simp only [List.countP_append, List.countP_singleton, Event.looksUp, Event.answers]
      by_cases hid : id = id'
      · subst hid
        simp
        omega
      · simp [hid]
        omega

/-- Under an identifier at rest nothing is under way. -/
theorem Tallied.atRest (h : Tallied es l) {id : PacketId} (hrest : AtRest id es) :
    id ∉ l.pubrels ∧ ∀ code, l.work ≠ .completing id code := by
  obtain ⟨hreleased, hlooked⟩ := hrest
  refine ⟨fun hmem ↦ ?_, fun code hwork ↦ absurd (h.work id code hwork) (not_lt.2 hlooked)⟩
  have hpos := List.count_pos_iff.2 hmem
  have hle := h.pubrels id
  omega

/-- **An entry keeps the handshakes in phase, where the broker does.** -/
theorem Phased.entry (h : Phased es l) (htallied : Tallied es l)
    (hentry : Ledger.Entry l fs l') (hinPhase : Throughout InPhase (es ++ fs))
    (hrests : Throughout UsedAtRest (es ++ fs)) : Phased (es ++ fs) l' := by
  cases hentry with
  | nothing | acquire | assign | fail | count | forfeit | finish =>
    rw [List.append_nil]
    exact h.of_silent (fun _ hid ↦ hid) fun _ _ hcode ↦ hcode
  | abort | freeRefused | free =>
    rw [List.append_nil]
    exact h.of_silent (fun _ hid ↦ hid) fun _ _ hcode ↦ Work.noConfusion hcode
  | dropRelease hpubrels | giveUp _ hpubrels =>
    rw [List.append_nil]
    exact h.of_silent (fun _ hid ↦ hpubrels ▸ List.mem_cons_of_mem _ hid) fun _ _ hcode ↦ hcode
  | enter =>
    exact h.of_event (fun p hp ↦ Event.noConfusion hp) (fun _ hx ↦ Event.noConfusion hx)
      (fun _ ha ↦ Event.noConfusion ha) trivial (fun _ hid ↦ hid) fun _ _ hcode ↦ hcode
  | disconnect =>
    refine h.of_event (fun p hp ↦ ?_) (fun _ hx ↦ Event.noConfusion hx) (fun a ha ↦ ?_)
      trivial (fun _ hid ↦ hid) fun _ _ hcode ↦ hcode
    · cases hp
    · cases ha
  | @write p hstage =>
    have hrest : UsedAtRest es (.wrote (.publish p)) := (throughout_snoc.1 hrests).2
    refine h.of_event (fun p' hp' id hid ↦ ?_) (fun _ hx ↦ Event.noConfusion hx) (fun a ha ↦ ?_)
      trivial (fun _ hid ↦ hid) fun _ _ hcode ↦ hcode
    · cases hp'
      exact htallied.atRest (hrest id hid)
    · cases ha
  | @release id rest hpubrels =>
    have hother : ∀ {id' : PacketId} (p : Publish),
        Event.wrote (.pubrel ⟨id, .success⟩) = .wrote (.publish p) → p.packetId ≠ some id' :=
      fun p hp ↦ by cases hp
    refine ⟨fun id' hid' ↦ ?_, fun id' hid' ↦ ?_, fun id' code hcode ↦ ?_,
      throughout_snoc.2 ⟨h.ends, trivial⟩⟩
    · obtain ⟨received, hreceived, hrec⟩ := h.pubrels id' (hpubrels ▸ List.mem_cons_of_mem _ hid')
      exact ⟨received, hreceived, hrec.append hother⟩
    · by_cases hsame : id = id'
      · subst hsame
        obtain ⟨received, hreceived, hrec⟩ := h.pubrels id (hpubrels ▸ List.mem_cons_self)
        exact ⟨received, hreceived, hrec.snoc fun p hp ↦ by cases hp⟩
      · obtain ⟨received, hreceived, hrel⟩ :=
          h.released id' (hid'.of_snoc (fun heq ↦ hsame (by cases heq; rfl)) hother)
        exact ⟨received, hreceived, hrel.append hother⟩
    · exact completed_or_refused_append (h.completing id' code hcode)
        (fun order hes ↦ hes.append hother) fun _ hx ↦ Event.noConfusion hx
  | ignore hwork =>
    exact h.of_read (fun _ hid ↦ Or.inl hid) fun _ _ hcode ↦
      absurd (hwork.symm.trans hcode) fun h ↦ Work.noConfusion h
  | @owe a hwork hcode =>
    have hpublished : Since a.packetId [] es := (throughout_snoc.1 hinPhase).2
    refine h.of_read (fun id hid ↦ ?_) fun _ _ hcode ↦
      absurd (hwork.symm.trans hcode) fun h ↦ Work.noConfusion h
    rcases List.mem_append.1 hid with hmem | hmem
    · exact Or.inl hmem
    · rw [List.mem_singleton.1 hmem]
      exact Or.inr ⟨a.reasonCode, hcode, rfl, hpublished⟩
  | @hear p id code hwork hterminal =>
    have hin : InPhase es (.read (.packet p)) := (throughout_snoc.1 hinPhase).2
    refine h.of_read (fun _ hid ↦ Or.inl hid) fun id' code' hcode ↦ ?_
    cases hcode
    have hread : ∀ p', Event.read (.packet p) ≠ .wrote (.publish p') := fun p' hp' ↦
      Event.noConfusion hp'
    cases p with
    | puback a => exact hin.elim
    | pubcomp a =>
      cases hterminal
      obtain ⟨received, hreceived, hrel⟩ := h.released _ hin
      exact Or.inl ⟨lastRead_snoc _ _, received, hreceived, hrel.snoc hread⟩
    | pubrec a =>
      by_cases herror : a.reasonCode.isError = true
      · rw [terminal, if_pos herror] at hterminal
        cases hterminal
        exact Or.inr ⟨lastRead_snoc _ _, herror, hin.snoc hread⟩
      · rw [terminal, if_neg herror] at hterminal
        cases hterminal
    | _ => cases hterminal
  | find hwork =>
    exact h.of_event (fun p hp ↦ Event.noConfusion hp) (fun _ hx ↦ Event.noConfusion hx)
      (fun _ ha ↦ Event.noConfusion ha) (h.completing _ _ hwork) (fun _ hid ↦ hid)
      fun _ _ hcode ↦ Work.noConfusion hcode
  | miss =>
    exact h.of_event (fun p hp ↦ Event.noConfusion hp) (fun _ hx ↦ Event.noConfusion hx)
      (fun _ ha ↦ Event.noConfusion ha) trivial (fun _ hid ↦ hid)
      fun _ _ hcode ↦ Work.noConfusion hcode

variable {c : Setting} {clock : ℕ} {s : State}

/-- **With a broker that conforms, and identifiers that are used at rest, every slot is freed by the
end of a handshake.** -/
theorem ends_of_inPhase (hqos : c.acknowledged = true) (h : Run c clock es s)
    (hinPhase : Throughout InPhase es) (hrests : Throughout UsedAtRest es) :
    Throughout Ends es := by
  refine ((Ledger.of_run hqos (I := fun es l ↦ Tallied es l ∧ (Throughout InPhase es →
    Throughout UsedAtRest es → Phased es l)) ?_ ?_ h).2 hinPhase hrests).ends
  · refine ⟨⟨fun _ ↦ le_rfl, fun _ _ h ↦ Work.noConfusion h, fun _ ↦ le_rfl⟩, fun _ _ ↦
      ⟨fun _ hid ↦ absurd hid List.not_mem_nil, fun _ hid ↦ ?_, fun _ _ h ↦ Work.noConfusion h,
        throughout_nil⟩⟩
    exact absurd (Since.mem hid (List.mem_singleton_self _)) List.not_mem_nil
  · rintro es l fs l' ⟨htallied, hphased⟩ hentry
    refine ⟨htallied.entry hentry, fun hinPhase hrests ↦ ?_⟩
    exact (hphased hinPhase.of_append hrests.of_append).entry htallied hentry hinPhase hrests

/-! ### Identifiers before they wrap -/

/-- A broker that conforms sends nothing under an identifier that no PUBLISH was written under. -/
theorem atRest_of_inPhase {id : PacketId} (hinPhase : Throughout InPhase es)
    (hnew : ∀ p, .wrote (.publish p) ∈ es → p.packetId ≠ some id) : AtRest id es := by
  have hnone : ∀ e ∈ es, e.receives id = false ∧ e.answers id = false := by
    intro e he
    obtain ⟨before, after, rfl⟩ := List.append_of_mem he
    have hin := hinPhase before e after rfl
    have hunpublished : ∀ order, ¬Since id order before := by
      rintro order hsince
      obtain ⟨p, hp, hid⟩ := hsince.published
      exact hnew p (List.mem_append_left _ hp) hid
    cases e with
    | read x =>
      cases x with
      | packet p =>
        cases p with
        | puback a => exact hin.elim
        | pubrec a =>
          have hsince : Since a.packetId [] before := hin
          have hother : a.packetId ≠ id := fun heq ↦ hunpublished _ (heq ▸ hsince)
          simp [Event.receives, Event.answers, terminal, hother, apply_ite]
        | pubcomp a =>
          have hsince : Since a.packetId _ before := hin
          have hother : a.packetId ≠ id := fun heq ↦ hunpublished _ (heq ▸ hsince)
          simp [Event.receives, Event.answers, terminal, hother]
        | _ => exact ⟨rfl, rfl⟩
      | _ => exact ⟨rfl, rfl⟩
    | _ => exact ⟨rfl, rfl⟩
  constructor
  · rw [List.countP_eq_zero.2 fun e he ↦ Bool.eq_false_iff.1 (hnone e he).1]
    exact Nat.zero_le _
  · rw [List.countP_eq_zero.2 fun e he ↦ Bool.eq_false_iff.1 (hnone e he).2]
    exact Nat.zero_le _

/-- **Until they wrap, the identifiers are used at rest** with a broker that conforms. -/
theorem usedAtRest_of_entered (hqos : c.acknowledged = true) (h : Run c clock es s)
    (hinPhase : Throughout InPhase es) (hrange : entered es ≤ 65535) :
    Throughout UsedAtRest es := by
  refine (Ledger.of_run hqos (I := fun es l ↦ Sequenced es l ∧ (Throughout InPhase es →
    entered es ≤ 65535 → Throughout UsedAtRest es)) ?_ ?_ h).2 hinPhase hrange
  · exact ⟨⟨rfl, fun _ _ h ↦ Stage.noConfusion h, fun _ h ↦ Stage.noConfusion h,
      fun _ _ _ hmem ↦ absurd hmem List.not_mem_nil⟩, fun _ _ ↦ throughout_nil⟩
  · rintro es l fs l' ⟨hsequenced, hrests⟩ hentry
    refine ⟨hsequenced.entry hentry, fun hinPhase hrange ↦ ?_⟩
    have hle : entered es ≤ entered (es ++ fs) := (entered_append es fs) ▸ Nat.le_add_right _ _
    have hrests' := hrests hinPhase.of_append (hle.trans hrange)
    cases hentry with
    | nothing | acquire | assign | fail | count | forfeit | finish | abort | freeRefused | free
    | dropRelease | giveUp =>
      rw [List.append_nil]
      exact hrests'
    | enter | disconnect | release | ignore | owe | hear | find | miss =>
      exact throughout_snoc.2 ⟨hrests', trivial⟩
    | @write p hstage =>
      obtain ⟨hp, -⟩ := hsequenced.labelled p hstage
      have hrange' : entered es ≤ 65535 := hle.trans hrange
      have htoNat := hsequenced.toNat_nextPacketId hstage hrange'
      have hold := hsequenced.written hrange'
      rw [hstage] at hold
      refine throughout_snoc.2 ⟨hrests', fun id hid ↦ ?_⟩
      refine atRest_of_inPhase hinPhase.of_append fun p' hmem hid' ↦ ?_
      obtain rfl := Option.some.inj (hp.symm.trans hid)
      have hlt : l.nextPacketId.toNat + 1 ≤ entered es := hold p' _ hmem hid'
      omega

/-! ### Handshakes with any broker

With a message to send, a broker that sends a PUBACK for it frees its slot. So the property holds
over all brokers only where there is nothing to send. -/

/-- Where no message is on its way, none is entered, and no slot is freed. -/
theorem ends_entry (hentry : Ledger.Entry l fs l') (hstage : l.stage = .idle ∨ l.stage = .over)
    (hnone : l.inFlight = ∅) (hends : Throughout Ends es) :
    l'.inFlight = ∅ ∧ Throughout Ends (es ++ fs) := by
  cases hentry with
  | enter h | forfeit h =>
    rcases hstage with hstage | hstage <;> exact Stage.noConfusion (h.symm.trans hstage)
  | find _ hmem =>
    rw [hnone] at hmem
    exact absurd hmem Finmap.notMem_empty
  | nothing | dropRelease | giveUp | finish | acquire | assign | fail | count | abort
  | freeRefused | free =>
    rw [List.append_nil]
    exact ⟨hnone, hends⟩
  | disconnect | release | write | ignore | owe | hear | miss =>
    exact ⟨hnone, throughout_snoc.2 ⟨hends, trivial⟩⟩

/-- With nothing to send, no slot is freed. -/
theorem ends_of_quota_zero (hqos : c.acknowledged = true) (hquota : c.quota = some 0)
    (h : Run c clock es s) : Throughout Ends es := by
  have hinvariant := h.invariant (I := fun es s ↦ Labelled s ∧ BelowQuota c s ∧
    s.inFlight = ∅ ∧ Throughout Ends es) ⟨fun _ _ h ↦ Phase.noConfusion h,
      belowQuota_initial c clock, rfl, throughout_nil⟩ ?_
  · exact hinvariant.2.2.2
  rintro es s s' ⟨hlabelled, hbelow, hnone, hends⟩ hstep
  have hm := move_of_step hstep
  have hstage : (ledger s).stage = .idle ∨ (ledger s).stage = .over := by
    have hnot : ¬s.phase.WithinQuota := fun h ↦ Nat.not_lt_zero _ (hbelow 0 hquota h)
    show s.phase.stage = .idle ∨ s.phase.stage = .over
    cases hphase : s.phase with
    | permitted | assigned | writing | written | failing =>
      rw [hphase] at hnot
      exact absurd trivial hnot
    | returned => exact Or.inr rfl
    | _ => exact Or.inl rfl
  exact ⟨hlabelled.move hm, hbelow.move hm,
    ends_entry (Ledger.entry_of_move hqos hlabelled hm) hstage hnone hends⟩

/-- **A PUBACK frees the slot of a QoS 2 message.** -/
theorem exists_not_ends (hqos : c.acknowledged = true) (hquota : c.quota ≠ some 0) (clock : ℕ) :
    ∃ es s, Run c clock es s ∧ ¬Throughout Ends es := by
  have hmore : More c (initial c clock) := fun q hq ↦
    Nat.pos_of_ne_zero fun hzero ↦ hquota (by rw [hq, hzero])
  let s := sentNext c (initial c clock)
  have hreach : Reaches (Step c) (initial c clock) s := reaches_of_unaided
    (reaches_sentNext (atTop_initial c clock) hmore hqos c.window_pos.ne')
  obtain ⟨es, hrun⟩ : ∃ es, Run c clock es s := History.exists_of_reaches hreach
  let s₁ : State := { s with inbound := [.packet (.puback ⟨1, .success⟩)] }
  let s₂ : State := { s with ack := .completing 1 .success }
  let s₃ : State := { s with
    inFlight := s.inFlight.erase 1
    ack := .freeing (dueTime c (initial c clock)) .success }
  have hdeliver : Step c s s₁ := ⟨.deliver (.packet (.puback ⟨1, .success⟩)), rfl⟩
  have hread : Step c s₁ s₂ := ⟨.acknowledge, rfl⟩
  have hfind : Step c s₂ s₃ := by
    refine ⟨.acknowledge, ?_⟩
    have hlookup : s.inFlight.lookup 1 = some (dueTime c (initial c clock)) :=
      Finmap.lookup_insert _
    simp only [step, acknowledge, s₂, hlookup]
    rfl
  have hrun' := ((hrun.next hdeliver).next hread).next hfind
  have h₁ : events s s₁ = [] := rfl
  have h₂ : events s₁ s₂ = [.read (.packet (.puback ⟨1, .success⟩))] := rfl
  have h₃ : events s₂ s₃ = [.lookedUp 1 .success true] := rfl
  rw [h₁, h₂, h₃, List.append_nil] at hrun'
  refine ⟨_, _, hrun', fun hends ↦ ?_⟩
  have hread := lastRead_snoc es (.packet (.puback ⟨1, .success⟩))
  rcases (throughout_snoc.1 hends).2 with ⟨hcomp, -⟩ | ⟨hrec, -⟩
  · cases hread.symm.trans hcomp
  · cases hread.symm.trans hrec

/-- **A QoS 2 message is acknowledged by its full handshake with a broker that conforms, where no
identifier is used again with something outstanding under it, and with any broker exactly if there
is nothing to send.** None is used again so until the identifiers wrap. The counter counts no other
messages. -/
theorem ends_iff (hexactly : c.config.qos = .exactlyOnce) :
    (∀ es s, Run c clock es s → Throughout InPhase es → Throughout UsedAtRest es →
      Throughout Ends es) ∧
    (∀ es s, Run c clock es s → Throughout InPhase es → entered es ≤ 65535 →
      Throughout UsedAtRest es) ∧
    (∀ es s, Run c clock es s → s.acknowledged ≤ es.countP Event.succeeds) ∧
    ((∀ es s, Run c clock es s → Throughout Ends es) ↔ c.quota = some 0) := by
  have hqos : c.acknowledged = true := by
    rw [Setting.acknowledged, hexactly]
    rfl
  refine ⟨fun _ _ ↦ ends_of_inPhase hqos, fun _ _ ↦ usedAtRest_of_entered hqos,
    fun _ _ ↦ acknowledged_le hqos, fun h ↦ ?_, fun hquota ↦
    fun _ _ ↦ ends_of_quota_zero hqos hquota⟩
  by_contra hquota
  obtain ⟨es, s, hrun, hnot⟩ := exists_not_ends hqos hquota clock
  exact hnot (h es s hrun)

/-- A message is sent, received, released and completed. -/
def handshake : List Act :=
  List.replicate 9 .advance ++
  [.deliver (.packet (.pubrec ⟨1, .success⟩)), .acknowledge, .advance, .advance,
    .deliver (.packet (.pubcomp ⟨1, .success⟩)), .acknowledge, .acknowledge, .acknowledge]

/-- The history of a handshake, once the message `p` is entered in flight. -/
def handshakeEvents (p : Publish) : List Event :=
  [.entered 1, .wrote (.publish p), .read (.packet (.pubrec ⟨1, .success⟩)),
    .wrote (.pubrel ⟨1, .success⟩), .read (.packet (.pubcomp ⟨1, .success⟩)),
    .lookedUp 1 .success true]

/-- The broker of the handshake conforms. -/
theorem inPhase_handshake {p : Publish} (hp : p.packetId = some 1) :
    Throughout InPhase (handshakeEvents p) := by
  have hsent : Throughout InPhase [.entered 1, .wrote (.publish p)] :=
    throughout_snoc.2 ⟨throughout_snoc.2 ⟨throughout_nil, trivial⟩, trivial⟩
  have hreceived : Throughout InPhase ([.entered 1, .wrote (.publish p)] ++
      [.read (.packet (.pubrec ⟨1, .success⟩))]) :=
    throughout_snoc.2 ⟨hsent, [.entered 1], p, [], rfl, hp, by simp, List.nil_sublist _⟩
  have hreleased := throughout_snoc.2 ⟨hreceived,
    show InPhase _ (.wrote (.pubrel ⟨1, .success⟩)) from trivial⟩
  have hcompleted := throughout_snoc.2 ⟨hreleased,
    show InPhase _ (.read (.packet (.pubcomp ⟨1, .success⟩))) from
      ⟨[.entered 1], p, _, rfl, hp, by simp, List.sublist_append_right _ _⟩⟩
  exact throughout_snoc.2 ⟨hcompleted, show InPhase _ (.lookedUp 1 .success true) from trivial⟩

/-- Ten messages, of which the first goes through its handshake and is acknowledged. -/
theorem ends_iff_handshake : ∃ es s, Run (alone .exactlyOnce (.count 10) 100) 0 es s ∧
    s.acknowledged = 1 ∧ Throughout InPhase es ∧ Throughout UsedAtRest es ∧
    Throughout Ends es ∧ Completed 1 .success (es.take 5) := by
  let p := message (alone .exactlyOnce (.count 10) 100)
    (initial (alone .exactlyOnce (.count 10) 100) 0) (some 1)
  obtain ⟨es, s, hrun, rfl, hacknowledged⟩ :=
    exists_run (c := alone .exactlyOnce (.count 10) 100) 0 handshake
      (fun es s ↦ es = handshakeEvents p ∧ s.acknowledged = 1) (by decide +kernel)
  have hinPhase := inPhase_handshake (p := p) rfl
  obtain ⟨hends, hrests, -⟩ := @ends_iff (alone .exactlyOnce (.count 10) 100) 0 rfl
  have husedAtRest := hrests _ _ hrun hinPhase (by decide)
  have hended := hends _ _ hrun hinPhase husedAtRest
  refine ⟨_, s, hrun, hacknowledged, hinPhase, husedAtRest, hended, ?_⟩
  exact (hended _ (.lookedUp 1 .success true) [] rfl).resolve_right fun ⟨_, hcode, _⟩ ↦
    absurd hcode (by decide)

/-- **Ten messages, of which the broker acknowledges the first with a PUBACK.** -/
theorem not_ends_puback : ¬∀ es s, Run (alone .exactlyOnce (.count 10) 100) 0 es s →
    Throughout Ends es := by
  intro h
  obtain ⟨es, s, hrun, hnot⟩ :=
    exists_not_ends (c := alone .exactlyOnce (.count 10) 100) (by decide) (by decide) 0
  exact hnot (h es s hrun)

end Publisher

end Bench

end PulsemqCli
