import PulsemqCli.Library.Triple
import PulsemqCli.Disconnect
import PulsemqCli.Replies

/-!
# What a connection writes after its CONNECT

Whatever the broker sends and whatever goes wrong, what a connection has written is the beginning of
a session as the protocol has it. Only packets that a client may send are in it. Those that open an
exchange, PUBLISH at QoS 1 and 2 and SUBSCRIBE, are numbered from 1 on without a gap, and after
65535 from 1 on again. Nothing comes after a DISCONNECT. This holds of the three commands on one
connection, and of both kinds of connection that a benchmark opens.

An unfinished session is `Open`: what is written so far opens its exchanges under the first
identifiers, the last of them is what the connection keeps, and no DISCONNECT is among it. A
finished or broken one is only required to be `Conforms`, so that a command may stop at any point.
That is why every command is specified by a triple with the same two conditions: from `Live` it goes
to `Live` or to `Over`, and whatever error it ends with leaves it `Over`.

Between `next_packet_id` and the write it is meant for a connection is neither: the identifier is
given out, and nothing is opened under it yet. `Allocated` is this moment, and `allocated_send` the
only way out of it that goes on.

The commands are then taken apart into their writes and waits, each with its own triple
(`live_send`, `live_recv`, `live_disconnect`). A publisher is no reactive process but a state
machine, and has an invariant instead (`Publisher.Speaks`), which each of its steps preserves
(`Speaks.move`). `written_conforms` puts the five kinds of connection together.

What a broker may expect beyond this, that a PUBREL answers a PUBREC or that a reply names a packet
that was received, is not part of `Conforms`; the modules on replies and on the relay of PUBRELs
have it.
-/

namespace PulsemqCli

namespace Conformance

open Transition Reactive Protocol Client Bench

/-- The packets that a client may send after its CONNECT, as the protocol asks for them. -/
def MaySend : Packet → Prop
  | .publish p => p.dup = false ∧ (p.packetId = none ↔ p.qos = .atMostOnce) ∧ p.packetId ≠ some 0
  | .puback a | .pubrec a | .pubrel a | .pubcomp a => a.reasonCode = .success
  | .subscribe s => s.packetId ≠ 0 ∧ s.filters ≠ []
  | .pingreq => True
  | .disconnect code => code = .success
  | _ => False

/-- The identifier of a packet that opens an exchange. -/
def opens : Packet → Option PacketId
  | .publish p => p.packetId
  | .subscribe s => some s.packetId
  | _ => none

/-- The first `n` identifiers of a connection. -/
def firstIds (n : ℕ) : List PacketId :=
  (List.range n).map fun k ↦ succPacketId^[k + 1] 0

/-- What one connection has written. -/
structure Conforms (ws : List Packet) : Prop where
  maySend : ∀ p ∈ ws, MaySend p
  numbered : ws.filterMap opens = firstIds (ws.filterMap opens).length
  closed : ∀ pre code post, ws = pre ++ .disconnect code :: post → post = []

/-- The packets that a log has written. -/
def sentPackets (log : List Event) : List Packet :=
  log.filterMap Disconnect.writtenPacket

/-! ### Open sessions

The only facts about sessions that are used below: the empty one is open, a packet that opens
nothing keeps it open, one that opens an exchange under the next identifier does so too, and a
DISCONNECT closes it. -/

/-- A session without a DISCONNECT so far, in which `last` is the identifier given last. -/
structure Open (last : PacketId) (ws : List Packet) : Prop where
  maySend : ∀ p ∈ ws, MaySend p
  numbered : ws.filterMap opens = firstIds (ws.filterMap opens).length
  last_eq : last = succPacketId^[(ws.filterMap opens).length] 0
  connected : ∀ code, .disconnect code ∉ ws

/-- One more exchange is numbered one further. -/
theorem firstIds_succ (n : ℕ) : firstIds (n + 1) = firstIds n ++ [succPacketId^[n + 1] 0] := by
  rw [firstIds, List.range_succ, List.map_append]
  rfl

/-- Right after the CONNECT nothing is written, and no identifier is given out. -/
theorem open_nil : Open 0 [] where
  maySend := fun _ hp ↦ absurd hp List.not_mem_nil
  numbered := rfl
  last_eq := rfl
  connected := fun _ ↦ List.not_mem_nil

namespace Open

variable {last : PacketId} {ws : List Packet} {p : Packet}

/-- A packet that opens nothing. -/
theorem snoc (h : Open last ws) (hp : MaySend p) (hopens : opens p = none)
    (hconnected : ∀ code, p ≠ .disconnect code) : Open last (ws ++ [p]) := by
  have hids : (ws ++ [p]).filterMap opens = ws.filterMap opens := by
    rw [List.filterMap_append, List.filterMap_cons_none hopens, List.filterMap_nil,
      List.append_nil]
  refine ⟨?_, by rw [hids]; exact h.numbered, by rw [hids]; exact h.last_eq, fun code hmem ↦ ?_⟩
  · exact fun q hq ↦ (List.mem_append.1 hq).elim (h.maySend q) fun hq ↦
      List.mem_singleton.1 hq ▸ hp
  · exact (List.mem_append.1 hmem).elim (h.connected code) fun hmem ↦
      hconnected code (List.mem_singleton.1 hmem).symm

/-- A packet that opens an exchange, under the next identifier. -/
theorem snoc_opens (h : Open last ws) (hp : MaySend p)
    (hopens : opens p = some (succPacketId last)) : Open (succPacketId last) (ws ++ [p]) := by
  have hids : (ws ++ [p]).filterMap opens = ws.filterMap opens ++ [succPacketId last] := by
    rw [List.filterMap_append, List.filterMap_cons_some hopens, List.filterMap_nil]
  have hnext : succPacketId last = succPacketId^[(ws.filterMap opens).length + 1] 0 := by
    rw [Function.iterate_succ_apply', ← h.last_eq]
  have hlength : ((ws ++ [p]).filterMap opens).length = (ws.filterMap opens).length + 1 := by
    rw [hids, List.length_append, List.length_singleton]
  refine ⟨?_, ?_, by rw [hlength]; exact hnext, fun code hmem ↦ ?_⟩
  · exact fun q hq ↦ (List.mem_append.1 hq).elim (h.maySend q) fun hq ↦
      List.mem_singleton.1 hq ▸ hp
  · rw [hlength, firstIds_succ, hids, ← h.numbered, ← hnext]
  · rcases List.mem_append.1 hmem with hmem | hmem
    · exact h.connected code hmem
    · rw [← List.mem_singleton.1 hmem] at hopens
      cases hopens

/-- An open session conforms, so a command may be interrupted anywhere. -/
theorem conforms (h : Open last ws) : Conforms ws where
  maySend := h.maySend
  numbered := h.numbered
  closed := fun pre code post hws ↦ absurd (by rw [hws]; simp) (h.connected code)

/-- The DISCONNECT ends it. -/
theorem conforms_disconnect (h : Open last ws) : Conforms (ws ++ [.disconnect .success]) where
  maySend := fun q hq ↦ (List.mem_append.1 hq).elim (h.maySend q) fun hq ↦ by
    rw [List.mem_singleton.1 hq]
    rfl
  numbered := by
    have hids : (ws ++ [Packet.disconnect .success]).filterMap opens = ws.filterMap opens := by
      rw [List.filterMap_append]
      exact List.append_nil _
    rw [hids]
    exact h.numbered
  closed := by
    intro pre code post hws
    rcases List.eq_nil_or_concat' post with rfl | ⟨init, q, rfl⟩
    · rfl
    · have hws' : ws ++ [.disconnect .success] = (pre ++ .disconnect code :: init) ++ [q] := by
        rw [hws, List.append_assoc, List.cons_append]
      have hinit := List.append_inj_left' hws' rfl
      exact absurd (by rw [hinit]; simp) (h.connected code)

end Open

/-! ### What the parts of a command make of an open session -/

/-- The session is open. On a connection with a `Client`, that keeps the identifier given last. -/
def Live (client : Bool) (w : Net) : Prop :=
  ∃ last, Open last (sentPackets w.log) ∧ (client = true → w.store.nextPacketId = last)

/-- An open session whose client has given out `id` and not written it yet. -/
def Allocated (id : PacketId) (w : Net) : Prop :=
  ∃ last, Open last (sentPackets w.log) ∧ id = succPacketId last ∧ w.store.nextPacketId = id

/-- However a command stops, it has written a session. -/
def Over (w : Net) : Prop :=
  Conforms (sentPackets w.log)

/-- A packet that can be written anywhere in a session. -/
structure Anytime (p : Packet) : Prop where
  maySend : MaySend p
  opens : opens p = none
  connected : ∀ code, p ≠ .disconnect code

section Parts

variable {α σ : Type} {client : Bool}

theorem sentPackets_sent (log : List Event) (p : Packet) :
    sentPackets (log ++ [.sent p]) = sentPackets log ++ [p] :=
  List.filterMap_append

theorem sentPackets_of_not_sent {e : Event} (he : ∀ p, e ≠ .sent p) (log : List Event) :
    sentPackets (log ++ [e]) = sentPackets log := by
  have hnone : Disconnect.writtenPacket e = none := by
    cases e with
    | sent p => exact absurd rfl (he p)
    | _ => rfl
  rw [sentPackets, List.filterMap_append, List.filterMap_cons_none hnone, List.filterMap_nil,
    List.append_nil]
  rfl

/-- A command that stops while its session is open has written a session. -/
theorem Live.over {w : Net} (h : Live client w) : Over w := by
  obtain ⟨last, hopen, -⟩ := h
  exact hopen.conforms

/-- So has one that stops before it wrote the packet an identifier was meant for. -/
theorem Allocated.over {id : PacketId} {w : Net} (h : Allocated id w) : Over w := by
  obtain ⟨last, hopen, -⟩ := h
  exact hopen.conforms

/-- Whether a session is open does not depend on what is still to arrive. -/
theorem live_heedless : Heedless (Live client) :=
  fun _ _ h ↦ h

/-- A write that fails writes nothing. -/
theorem over_unwrote {w : Net} (p : Packet) (h : Over w) : Over (w.unwrote p) := by
  rw [Over, Net.unwrote_log, sentPackets_of_not_sent (fun q hq ↦ Event.noConfusion hq)]
  exact h

/-- Printing, reading and waiting leave the session as it is. -/
theorem live_emit {e : Event} (he : ∀ p, e ≠ .sent p) :
    Triple (Live client) (emit e : Command Unit) (fun _ ↦ Live client) Over := by
  refine Triple.emit fun w h ↦ ?_
  rw [Live, sentPackets_of_not_sent he]
  exact h

/-- A write of a packet that has its place anywhere. -/
theorem live_send {p : Packet} (hp : Anytime p) :
    Triple (Live client) (send p) (fun _ ↦ Live client) Over := by
  rintro w h
  refine wp_send p ?_ fun _ _ ↦ over_unwrote p h.over
  obtain ⟨last, hopen, hclient⟩ := h
  refine ⟨last, ?_, hclient⟩
  rw [Net.wrote_log, sentPackets_sent]
  exact hopen.snoc hp.maySend hp.opens hp.connected

/-- A reply, where one is due. -/
theorem live_sendReply {r : Option Packet} (hr : ∀ p, r = some p → Anytime p) :
    Triple (Live client) (sendReply r) (fun _ ↦ Live client) Over := by
  cases r with
  | none => exact Triple.pure fun _ h ↦ h
  | some p => exact live_send (hr p rfl)

/-- The DISCONNECT closes the session, and if its write fails the session just stops. -/
theorem live_disconnect : Triple (Live client) disconnect (fun _ ↦ Over) Over := by
  rintro w h
  refine wp_send _ ?_ fun _ _ ↦ over_unwrote _ h.over
  obtain ⟨last, hopen, -⟩ := h
  rw [Over, Net.wrote_log, sentPackets_sent]
  exact hopen.conforms_disconnect

/-- `next_packet_id` gives out the identifier after the last one. -/
theorem live_nextPacketId : Triple (Live true) nextPacketId (fun id ↦ Allocated id) Over := by
  rintro w ⟨last, hopen, hlast⟩
  rw [wp_nextPacketId]
  exact ⟨last, hopen, congrArg succPacketId (hlast rfl), rfl⟩

/-- The packet that an identifier was given out for. -/
theorem allocated_send {p : Packet} {id : PacketId} (hp : id ≠ 0 → MaySend p)
    (hopens : opens p = some id) :
    Triple (Allocated id) (send p) (fun _ ↦ Live true) Over := by
  rintro w h
  refine wp_send p ?_ fun _ _ ↦ over_unwrote p h.over
  obtain ⟨last, hopen, rfl, hlast⟩ := h
  refine ⟨_, ?_, fun _ ↦ hlast⟩
  rw [Net.wrote_log, sentPackets_sent]
  exact hopen.snoc_opens (hp (succPacketId_ne_zero last)) hopens

/-- A wait for the next packet. -/
theorem live_recv {k : Packet → Command (σ ⊕ α)} {s : σ} {Q : α → Net → Prop}
    (hk : ∀ p, Triple (Live client) (k p) (Sum.elim (fun _ ↦ Live client) Q) Over) (x : Stimulus) :
    Triple (Live client) (recv k s x) (Sum.elim (fun _ ↦ Live client) Q) Over := by
  cases x with
  | packet p => exact (live_emit (by simp)).bind fun _ ↦ hk p
  | eof | readError e => exact Triple.fail fun _ h ↦ h.over
  | idle | stop => exact Triple.pure fun _ h ↦ h

theorem anytime_pingreq : Anytime .pingreq :=
  ⟨trivial, rfl, by simp⟩

/-- A read that keeps the connection alive: a read, or a PINGREQ. -/
theorem triple_recvKeepalive {k : Packet → Command (σ ⊕ α)} {s : σ} {P E : Net → Prop}
    {Q : α → Net → Prop} (hrecv : ∀ x, Triple P (recv k s x) (Sum.elim (fun _ ↦ P) Q) E)
    (hping : Triple P (send .pingreq) (fun _ ↦ P) E) (x : Stimulus) :
    Triple P (recvKeepalive k s x) (Sum.elim (fun _ ↦ P) Q) E := by
  cases x with
  | packet p => exact hrecv (.packet p)
  | eof => exact hrecv .eof
  | readError e => exact hrecv (.readError e)
  | stop => exact hrecv .stop
  | idle =>
    intro w h
    simp only [recvKeepalive, wp_bind, wp_load]
    split
    · rw [wp_bind]
      exact (hping w h).mono (fun _ _ h ↦ h) fun _ _ h ↦ h
    · exact h

/-- A wait that also keeps the connection alive: PINGREQ can be written anywhere. -/
theorem live_recvKeepalive {k : Packet → Command (σ ⊕ α)} {s : σ} {Q : α → Net → Prop}
    (hk : ∀ p, Triple (Live client) (k p) (Sum.elim (fun _ ↦ Live client) Q) Over) (x : Stimulus) :
    Triple (Live client) (recvKeepalive k s x) (Sum.elim (fun _ ↦ Live client) Q) Over :=
  triple_recvKeepalive (live_recv hk) (live_send anytime_pingreq) x

end Parts

/-! ### The commands -/

variable {client : Bool}

/-- `expect_ack` only waits: it replies to nothing. -/
theorem live_expectAck (what : String) :
    Triple (Live true) (Publish.expectAck what) (fun _ ↦ Live true) Over := by
  refine Triple.react live_heedless (fun _ h ↦ h.over) (fun s x ↦ live_recv (fun p ↦ ?_) x) ()
  cases p with
  | puback a | pubrec a | pubcomp a => exact Triple.pure fun _ h ↦ h
  | pingresp => exact Triple.pure fun _ h ↦ h
  | _ => exact Triple.fail fun _ h ↦ h.over

theorem live_check (code : ReasonCode) (what : String) :
    Triple (Live true) (Publish.check code what) (fun _ ↦ Live true) Over :=
  Triple.ite (fun _ ↦ Triple.fail fun _ h ↦ h.over) fun _ ↦ Triple.pure fun _ h ↦ h

/-- A wait for an acknowledgement, with the check of its reason code. -/
theorem live_acknowledged (what : String) : Triple (Live true)
    (do
      let ack ← Publish.expectAck what
      Publish.check ack what) (fun _ ↦ Live true) Over :=
  (live_expectAck what).bind fun code ↦ live_check code what

/-- The four packets of an acknowledgement can be written anywhere. -/
theorem anytime_ack {p : Packet} {id : PacketId} (hp : p = .puback ⟨id, .success⟩ ∨
    p = .pubrec ⟨id, .success⟩ ∨ p = .pubrel ⟨id, .success⟩ ∨ p = .pubcomp ⟨id, .success⟩) :
    Anytime p := by
  rcases hp with rfl | rfl | rfl | rfl <;> exact ⟨rfl, rfl, by simp⟩

/-- A PUBLISH at QoS 0. -/
theorem anytime_publish {p : Protocol.Publish} (hdup : p.dup = false) (hqos : p.qos = .atMostOnce)
    (hid : p.packetId = none) : Anytime (.publish p) where
  maySend := ⟨hdup, iff_of_true hid hqos, by rw [hid]; simp⟩
  opens := hid
  connected := by simp

/-- A PUBLISH at QoS 1 or 2, as long as its identifier is not 0. -/
theorem maySend_publish {p : Protocol.Publish} {id : PacketId} (hdup : p.dup = false)
    (hqos : p.qos ≠ .atMostOnce) (hid : p.packetId = some id) (hne : id ≠ 0) :
    MaySend (.publish p) :=
  ⟨hdup, iff_of_false (by simp [hid]) hqos, by rwa [hid, ne_eq, Option.some.injEq]⟩

/-- A message is one PUBLISH, and at QoS 2 a PUBREL after it. -/
theorem live_publishOne (m : Publish.Message) :
    Triple (Live true) (Publish.publishOne m) (fun _ ↦ Live true) Over := by
  cases hqos : m.qos with
  | atMostOnce =>
    have hone : Publish.publishOne m = send (.publish (m.toPublish none)) >>= fun _ ↦
        return () := by
      rw [Publish.publishOne, hqos]
      rfl
    rw [hone]
    exact (live_send (anytime_publish rfl hqos rfl)).bind fun _ ↦ Triple.pure fun _ h ↦ h
  | atLeastOnce =>
    have hone : Publish.publishOne m = nextPacketId >>= fun id ↦
        send (.publish (m.toPublish (some id))) >>= fun _ ↦ (do
          let ack ← Publish.expectAck "publish"
          Publish.check ack "publish") := by
      rw [Publish.publishOne, hqos]
      rfl
    rw [hone]
    refine live_nextPacketId.bind fun id ↦ ?_
    refine (allocated_send (fun hne ↦ ?_) rfl).bind fun _ ↦ live_acknowledged "publish"
    exact maySend_publish rfl (by simp [Publish.Message.toPublish, hqos]) rfl hne
  | exactlyOnce =>
    have hone : Publish.publishOne m = nextPacketId >>= fun id ↦
        send (.publish (m.toPublish (some id))) >>= fun _ ↦ (do
          let received ← Publish.expectAck "publish"
          Publish.check received "publish") >>= fun _ ↦
        send (.pubrel ⟨id, .success⟩) >>= fun _ ↦ (do
          let comp ← Publish.expectAck "publish"
          Publish.check comp "publish") := by
      rw [Publish.publishOne, hqos]
      simp only [bind_assoc, map_eq_pure_bind, pure_bind]
      rfl
    rw [hone]
    refine live_nextPacketId.bind fun id ↦ ?_
    refine (allocated_send (fun hne ↦ ?_) rfl).bind fun _ ↦
      (live_acknowledged "publish").bind fun _ ↦
        (live_send (anytime_ack (.inr (.inr (.inl rfl))))).bind fun _ ↦
          live_acknowledged "publish"
    exact maySend_publish rfl (by simp [Publish.Message.toPublish, hqos]) rfl hne

/-- So are the messages of a file or of stdin, one after the other. -/
theorem live_publishLines (args : Publish.PubArgs) (lines : List (Except String (List UInt8))) :
    Triple (Live true) (Publish.publishLines args lines) (fun _ ↦ Live true) Over := by
  induction lines with
  | nil => exact Triple.pure fun _ h ↦ h
  | cons line lines ih =>
    cases line with
    | error e => exact Triple.fail fun _ h ↦ h.over
    | ok payload => exact (live_publishOne _).bind fun _ ↦ ih

/-- The `pub` command. -/
theorem over_publish (args : Publish.PubArgs) :
    Triple (Live true) (Publish.run args) (fun _ ↦ Over) Over := by
  cases hsource : args.source with
  | once payload =>
    have hrun : Publish.run args = Publish.publishOne (args.message payload) >>= fun _ ↦
        disconnect := by
      rw [Publish.run, hsource]
    rw [hrun]
    exact (live_publishOne _).bind fun _ ↦ live_disconnect
  | lines lines =>
    have hrun : Publish.run args = Publish.publishLines args lines >>= fun _ ↦ disconnect := by
      rw [Publish.run, hsource]
    rw [hrun]
    exact (live_publishLines args lines).bind fun _ ↦ live_disconnect

theorem live_checkGrants (grants : List (String × ReasonCode)) :
    Triple (Live true) (Subscribe.checkGrants grants) (fun _ ↦ Live true) Over := by
  induction grants with
  | nil => exact Triple.pure fun _ h ↦ h
  | cons grant grants ih =>
    exact Triple.ite (fun _ ↦ Triple.fail fun _ h ↦ h.over) fun _ ↦ ih

/-- A SUBSCRIBE that asks for at least one filter, and the wait for its SUBACK. -/
theorem live_subscribe {filters : List String} (h : filters ≠ []) (qos : QoS) :
    Triple (Live true) (Subscribe.subscribe filters qos) (fun _ ↦ Live true) Over := by
  refine live_nextPacketId.bind fun id ↦ (allocated_send (fun hne ↦ ?_) rfl).bind fun _ ↦ ?_
  · exact ⟨hne, by simpa [Subscribe.subscribePacket] using h⟩
  · refine Triple.react live_heedless (fun _ h ↦ h.over) (fun s x ↦ live_recv (fun p ↦ ?_) x) ()
    cases p with
    | suback ack => exact (live_checkGrants _).bind fun _ ↦ Triple.pure fun _ h ↦ h
    | disconnect code => exact Triple.fail fun _ h ↦ h.over
    | _ => exact Triple.pure fun _ h ↦ h

/-- What a receive loop replies can be written anywhere. -/
theorem anytime_of_ackFor {p : Protocol.Publish} {r : Packet} (h : Subscribe.ackFor p = some r) :
    Anytime r := by
  unfold Subscribe.ackFor at h
  split at h
  next => cases h
  next id _ =>
    split at h
    next => cases h
    next => exact Option.some.inj h ▸ anytime_ack (.inl rfl)
    next => exact Option.some.inj h ▸ anytime_ack (.inr (.inl rfl))

/-- The acknowledgement of a message that arrived, where its QoS asks for one. -/
theorem live_acknowledge (p : Protocol.Publish) :
    Triple (Live client) (Subscribe.acknowledge p) (fun _ ↦ Live client) Over := by
  rw [Subscribe.acknowledge_eq]
  exact live_sendReply fun _ ↦ anytime_of_ackFor

/-- The PUBCOMP that answers a PUBREL. -/
theorem live_complete (rel : PubAck) : Triple (Live client)
    (send (.pubcomp ⟨rel.packetId, .success⟩)) (fun _ ↦ Live client) Over :=
  live_send (anytime_ack (.inr (.inr (.inr rfl))))

/-- The receive loop of `sub`. -/
theorem live_receive (showTopic : Bool) (limit : Option ℕ) :
    Triple (Live true) (Subscribe.receive showTopic limit) (fun _ ↦ Live true) Over := by
  refine Triple.react live_heedless (fun _ h ↦ h.over)
    (fun seen x ↦ live_recvKeepalive (fun p ↦ ?_) x) 0
  cases p with
  | publish m =>
    refine (live_acknowledge m).bind fun _ ↦ (live_emit (by simp)).bind fun _ ↦
      (live_emit (by simp)).bind fun _ ↦ ?_
    exact Triple.ite (fun _ ↦ Triple.pure fun _ h ↦ h) fun _ ↦ Triple.pure fun _ h ↦ h
  | pubrel rel => exact (live_complete rel).bind fun _ ↦ Triple.pure fun _ h ↦ h
  | disconnect code => exact Triple.fail fun _ h ↦ h.over
  | _ => exact Triple.pure fun _ h ↦ h

/-- The `sub` command. -/
theorem over_subscribe (args : Subscribe.SubArgs) :
    Triple (Live true) (Subscribe.run args) (fun _ ↦ Over) Over := by
  by_cases htopic : args.topic = []
  · rw [Subscribe.run, htopic]
    exact Triple.fail fun _ h ↦ h.over
  · rw [Subscribe.run_eq args htopic]
    refine (live_subscribe htopic args.qos).bind fun _ ↦ ?_
    refine Triple.ite (fun _ ↦ live_disconnect) fun _ ↦ ?_
    exact (live_receive args.showTopic args.effectiveLimit).bind fun _ ↦ live_disconnect

/-- The request is a message like any other. -/
theorem live_publishRequest (args : Request.RequestArgs) :
    Triple (Live true) (Request.publishRequest args) (fun _ ↦ Live true) Over := by
  have hgrant := live_subscribe (List.cons_ne_nil args.replyTopic []) args.qos
  by_cases hversion : args.version = .v3_1
  · rw [Request.publishRequest, if_pos hversion]
    exact Triple.fail fun _ h ↦ h.over
  · cases hqos : args.qos with
    | atMostOnce =>
      have hrequest : Request.publishRequest args =
          Subscribe.subscribe [args.replyTopic] args.qos >>= fun _ ↦
          send (.publish (args.publish none)) >>= fun _ ↦ return none := by
        rw [Request.publishRequest, if_neg hversion, hqos]
        rfl
      rw [hrequest]
      exact hgrant.bind fun _ ↦ (live_send (anytime_publish rfl hqos rfl)).bind fun _ ↦
        Triple.pure fun _ h ↦ h
    | atLeastOnce | exactlyOnce =>
      have hrequest : Request.publishRequest args =
          Subscribe.subscribe [args.replyTopic] args.qos >>= fun _ ↦ nextPacketId >>= fun id ↦
          send (.publish (args.publish (some id))) >>= fun _ ↦ return some id := by
        rw [Request.publishRequest, if_neg hversion, hqos]
        simp only [map_eq_pure_bind, bind_assoc, pure_bind]
      rw [hrequest]
      refine hgrant.bind fun _ ↦ live_nextPacketId.bind fun id ↦ ?_
      refine (allocated_send (fun hne ↦ ?_) rfl).bind fun _ ↦ Triple.pure fun _ h ↦ h
      exact maySend_publish rfl (by simp [Request.RequestArgs.publish, hqos]) rfl hne

/-- The receive loop of `request`. -/
theorem live_awaitReplies (showTopic : Bool) (count : ℕ) :
    Triple (Live true) (Request.awaitReplies showTopic count) (fun _ ↦ Live true) Over := by
  refine Triple.ite (fun _ ↦ ?_) fun _ ↦ Triple.pure fun _ h ↦ h
  refine Triple.react live_heedless (fun _ h ↦ h.over)
    (fun seen x ↦ live_recvKeepalive (fun p ↦ ?_) x) 0
  cases p with
  | publish m =>
    refine (live_acknowledge m).bind fun _ ↦ (live_emit (by simp)).bind fun _ ↦
      (live_emit (by simp)).bind fun _ ↦ ?_
    exact Triple.ite (fun _ ↦ Triple.pure fun _ h ↦ h) fun _ ↦ Triple.pure fun _ h ↦ h
  | pubrel rel => exact (live_complete rel).bind fun _ ↦ Triple.pure fun _ h ↦ h
  | pubrec ack =>
    exact (live_send (anytime_ack (.inr (.inr (.inl rfl))))).bind fun _ ↦ Triple.pure fun _ h ↦ h
  | disconnect code => exact Triple.fail fun _ h ↦ h.over
  | _ => exact Triple.pure fun _ h ↦ h

/-- The `request` command. -/
theorem over_request (args : Request.RequestArgs) :
    Triple (Live true) (Request.run args) (fun _ ↦ Over) Over :=
  (live_publishRequest args).bind fun _ ↦
    (live_awaitReplies args.showTopic args.count).bind fun _ ↦ live_disconnect

/-! ### The connections of a benchmark

Its subscriber is a command without a `Client`. Its publisher is a state machine: the invariant
`Speaks` says that the written packets form an open session, or one closed by its DISCONNECT if the
write side is past that. -/

theorem live_awaitStop : Triple (Live false) Subscriber.awaitStop (fun _ ↦ Live false) Over := by
  refine Triple.react live_heedless (fun _ h ↦ h.over) (fun _ x ↦ ?_) ()
  exact Triple.ite (fun _ ↦ Triple.pure fun _ h ↦ h) fun _ ↦ Triple.pure fun _ h ↦ h

theorem live_record (sample : Option ℕ) :
    Triple (Live false) (Subscriber.record sample) (fun _ ↦ Live false) Over := by
  cases sample with
  | none => exact Triple.pure fun _ h ↦ h
  | some nanos => exact live_emit (by simp)

/-- The receive loop of a benchmark's subscriber. -/
theorem live_listen (index : ℕ) (t : Subscriber.Timing) (s : Subscriber.Received) (x : Stimulus) :
    Triple (Live false) (Subscriber.listen index t s x)
      (Sum.elim (fun _ ↦ Live false) fun _ ↦ Live false) Over := by
  cases x with
  | packet p =>
    refine (live_emit (by simp)).bind fun _ ↦ ?_
    cases p with
    | publish m =>
      refine (live_emit (by simp)).bind fun _ ↦ (live_record _).bind fun _ ↦ ?_
      exact (live_sendReply fun _ ↦ anytime_of_ackFor).bind fun _ ↦ Triple.pure fun _ h ↦ h
    | pubrel rel => exact (live_complete rel).bind fun _ ↦ Triple.pure fun _ h ↦ h
    | disconnect code => exact Triple.fail fun _ h ↦ h.over
    | _ => exact Triple.pure fun _ h ↦ h
  | stop | idle => exact Triple.pure fun _ h ↦ h
  | eof => exact live_awaitStop.bind fun _ ↦ Triple.pure fun _ h ↦ h
  | readError e => exact Triple.fail fun _ h ↦ h.over

/-- Its wait for the SUBACK. It passes over other packets without replying. -/
theorem live_untilSubAck (index : ℕ) (stopped : Bool) (x : Stimulus) :
    Triple (Live false) (Subscriber.awaitSubAck index stopped x)
      (Sum.elim (fun _ ↦ Live false) fun _ ↦ Live false) Over := by
  cases x with
  | packet p =>
    refine (live_emit (by simp)).bind fun _ ↦ ?_
    cases p with
    | suback ack =>
      simp only
      split
      · exact Triple.fail fun _ h ↦ h.over
      · exact Triple.pure fun _ h ↦ h
    | _ => exact Triple.pure fun _ h ↦ h
  | stop | idle => exact Triple.pure fun _ h ↦ h
  | eof | readError e => exact Triple.fail fun _ h ↦ h.over

/-- A benchmark's subscriber gives its SUBSCRIBE the identifier 1. -/
theorem fresh_subscribe (config : Config) :
    Triple (fun w ↦ w.log = []) (send (.subscribe (Subscriber.subscribePacket config)))
      (fun _ ↦ Live false) Over := by
  rintro w hlog
  have hopen : Open 0 (sentPackets w.log) := by
    rw [hlog]
    exact open_nil
  refine wp_send _ ?_ fun _ _ ↦ over_unwrote _ hopen.conforms
  refine ⟨1, ?_, by simp⟩
  rw [Net.wrote_log, sentPackets_sent]
  have hne : (Subscriber.subscribePacket config).packetId ≠ 0 := by
    show (1 : PacketId) ≠ 0
    decide
  exact hopen.snoc_opens ⟨hne, by simp [Subscriber.subscribePacket]⟩ rfl

/-- A benchmark's subscriber, which has no `Client` and numbers its only exchange itself. -/
theorem over_subscriber (index : ℕ) (config : Config) (t : Subscriber.Timing) :
    Triple (fun w ↦ w.log = []) (Subscriber.run index config t) (fun _ ↦ Over) Over := by
  refine (fresh_subscribe config).bind fun _ ↦
    (Triple.react live_heedless (fun _ h ↦ h.over) (live_untilSubAck index) false).bind
      fun stopped ↦ ?_
  refine Triple.ite (fun _ ↦ Triple.pure fun _ h ↦ h.over) fun _ ↦ ?_
  exact (Triple.react live_heedless (fun _ h ↦ h.over) (live_listen index t) _).mono
    (fun _ h ↦ h) fun _ _ h ↦ h.over

namespace Publisher

variable {c : Publisher.Setting} {s s' : Publisher.State}

/-- What a publisher has written. Its next message has its identifier before it is written, and the
session is over once it has parted or failed. -/
def Speaks (s : Publisher.State) : Prop :=
  match s.phase with
  | .assigned p _ | .writing p => MaySend (.publish p) ∧ ∃ last, Open last s.written ∧
      ((p.packetId = none ∧ s.nextPacketId = last) ∨
        (p.packetId = some (succPacketId last) ∧ s.nextPacketId = succPacketId last))
  | .failing _ _ | .joining _ | .returned _ => Conforms s.written
  | _ => Open s.nextPacketId s.written

theorem Speaks.conforms (h : Speaks s) : Conforms s.written := by
  unfold Speaks at h
  split at h
  · obtain ⟨-, last, hopen, -⟩ := h
    exact hopen.conforms
  · obtain ⟨-, last, hopen, -⟩ := h
    exact hopen.conforms
  · exact h
  · exact h
  · exact h
  · exact h.conforms

/-- Leaving the send loop writes nothing. -/
theorem speaks_leave (h : Open s.nextPacketId s.written) : Speaks (Publisher.leave s) := by
  rcases Publisher.leave_phase s with hphase | ⟨deadline, hphase⟩
  all_goals
    rw [Speaks, hphase]
    exact h

theorem speaks_drained (h : Open s.nextPacketId s.written) (d : Publisher.Drain) :
    Speaks (Publisher.drained s d) := by
  cases d <;> exact h

/-- The ack side writes nothing at all. -/
theorem speaks_onPacket (h : Speaks s) (p : Packet) : Speaks (Publisher.onPacket s p) := by
  rw [Speaks, Publisher.onPacket_phase, Publisher.onPacket_written,
    Publisher.onPacket_nextPacketId]
  exact h

/-- A benchmark's message may be sent, unless it was given the reserved identifier 0. -/
theorem maySend_message (hqos : c.acknowledged = true) {id : PacketId} (hne : id ≠ 0) :
    MaySend (.publish (Publisher.message c s (some id))) := by
  have hqos' : c.config.qos ≠ .atMostOnce := by simpa [Publisher.Setting.acknowledged] using hqos
  exact maySend_publish rfl hqos' rfl hne

/-- A step of a publisher writes what its session is due next. -/
theorem Speaks.move (h : Speaks s) (hm : Publisher.Move c s s') : Speaks s' := by
  cases hm with
  | tick | deliver | raiseStop | dropStop | readEof | readError | complete | completeUnknown
  | freeRefused | free | close => exact h
  | @read p rest =>
    have hrest : Speaks { s with inbound := rest } := h
    exact speaks_onPacket hrest p
  | assign hphase hqos =>
    rw [Speaks, hphase] at h
    exact ⟨maySend_message hqos (succPacketId_ne_zero _), _, h, .inr ⟨rfl, rfl⟩⟩
  | assignNone hphase hqos =>
    rw [Speaks, hphase] at h
    have hqos' : c.config.qos = .atMostOnce := by simpa [Publisher.Setting.acknowledged] using hqos
    exact ⟨(anytime_publish rfl hqos' rfl).maySend, _, h, .inl ⟨rfl, rfl⟩⟩
  | insert hphase | insertNone hphase =>
    rw [Speaks, hphase] at h
    exact h
  | write hphase =>
    rw [Speaks, hphase] at h
    obtain ⟨hp, last, hopen, ⟨hid, hlast⟩ | ⟨hid, hlast⟩⟩ := h
    · rw [Speaks, hlast]
      exact hopen.snoc hp hid (by simp)
    · rw [Speaks, hlast]
      exact hopen.snoc_opens hp hid
  | release hphase =>
    rw [Speaks, hphase] at h
    exact h.snoc rfl rfl (by simp)
  | disconnect hphase =>
    rw [Speaks, hphase] at h
    exact h.conforms_disconnect
  | writeFails | forfeit | joined | timeout | releaseFails | disconnectFails => exact h.conforms
  | quotaReached hphase | stopSeen hphase | haltPacing hphase | acquireClosed hphase
  | haltAcquiring hphase =>
    rw [Speaks, hphase] at h
    exact speaks_leave h
  | drained hphase | releaseIgnored hphase =>
    rw [Speaks, hphase] at h
    exact speaks_drained h _
  | receive hphase | quotaLeft hphase | stopUnseen hphase | due hphase | unacknowledged hphase
  | acquire hphase | count hphase | settled hphase | unsettled hphase | wake hphase =>
    rw [Speaks, hphase] at h
    exact h

end Publisher

/-- A benchmark's publisher, at every moment of every run. -/
theorem always_speaks (c : Publisher.Setting) (clock : ℕ) :
    Always (Publisher.Step c) (Publisher.initial c clock) Publisher.Speaks :=
  always_of_invariant open_nil fun _ _ h hstep ↦ h.move (Publisher.move_of_step hstep)

/-! ### Every connection -/

/-- **Every connection of every command keeps to the protocol.** Whatever it is sent, in whatever
order, whichever writes fail and wherever it is stopped, what it has written after its CONNECT is
the beginning of a session. -/
theorem written_conforms :
    (∀ (args : Publish.PubArgs) keepAlive fault inbox, Conforms (sentPackets
      (Outcome.world (Publish.run args (Net.connected keepAlive fault inbox))).log)) ∧
    (∀ (r : Replies.Receiver) keepAlive fault inbox, Conforms (sentPackets
      (Outcome.world (r.run (Net.connected keepAlive fault inbox))).log)) ∧
    ∀ (c : Publisher.Setting) clock, Always (Publisher.Step c) (Publisher.initial c clock) fun s ↦
      Conforms s.written := by
  have hlive : ∀ keepAlive fault inbox, Live true (Net.connected keepAlive fault inbox) :=
    fun _ _ _ ↦ ⟨0, open_nil, fun _ ↦ rfl⟩
  refine ⟨?_, ?_, ?_⟩
  · exact fun args keepAlive fault inbox ↦ (over_publish args).world (hlive keepAlive fault inbox)
  · rintro (args | args | ⟨index, config, t⟩) keepAlive fault inbox
    · exact (over_subscribe args).world (hlive keepAlive fault inbox)
    · exact (over_request args).world (hlive keepAlive fault inbox)
    · have hrun : Triple (fun w : Net ↦ w.log = []) (Replies.Receiver.bench index config t).run
          (fun _ ↦ Over) Over :=
        (over_subscriber index config t).bind fun _ ↦ Triple.pure fun _ h ↦ h
      exact hrun.world rfl
  · exact fun c clock ↦ (always_speaks c clock).mono fun _ h ↦ h.conforms

end Conformance

end PulsemqCli
