import PulsemqCli.Closing.Publish

/-!
# Handshakes the three commands leave open

The conditions under which a run of `pub`, `sub` or `request` that returned left no handshake
open, put together.

The two commands that receive have the DISCONNECT after their loop, and a loop's transcript sends
nothing but replies and pings. So what could open a handshake is known from the manner, and each
command's result is the general one for its manner, with the wait for the SUBACK before it shown to
open none.
-/

namespace PulsemqCli

namespace Closing

open Reactive Protocol Client Receive ExactlyOnce

variable {σ : Type} {M : Manner σ} {u es : List Event}

/-- Events that send neither a PUBLISH nor a PUBREC open no handshake. -/
theorem closed_append_iff {es₀ : List Event} (hpublish : ∀ p, .sent (.publish p) ∉ es₀)
    (hpubrec : ∀ a, .sent (.pubrec a) ∉ es₀) : Closed (es₀ ++ es) ↔ Closed es := by
  constructor
  · intro h
    refine ⟨fun pre p post heq ↦ ?_, fun pre a post heq ↦ ?_⟩
    · exact h.sent (es₀ ++ pre) p post (by rw [heq, List.append_assoc])
    · exact h.received (es₀ ++ pre) a post (by rw [heq, List.append_assoc])
  · intro h
    refine ⟨fun pre p post heq ↦ ?_, fun pre a post heq ↦ ?_⟩
    · rcases split_at heq with ⟨post', hes₀, -⟩ | ⟨pre', hes, -⟩
      · exact absurd (by rw [hes₀]; simp) (hpublish p)
      · exact h.sent pre' p post hes
    · rcases split_at heq with ⟨post', hes₀, -⟩ | ⟨pre', hes, -⟩
      · exact absurd (by rw [hes₀]; simp) (hpubrec a)
      · exact h.received pre' a post hes

/-- A transcript sends nothing that its manner does not reply, but pings. -/
theorem sent_notMem_of_reply {r : Packet} (hu : Transcript M u) (hping : r ≠ .pingreq)
    (hr : ∀ p, M.reply p ≠ some r) : .sent r ∉ u := by
  intro hmem
  obtain ⟨pre, post, heq⟩ := List.append_of_mem hmem
  rcases hu.sent_split heq with h | ⟨p, -, -, h, -, -⟩
  · exact hping h
  · exact hr p h

theorem subscribe_replyTo_ne_publish (p : Packet) (m : Protocol.Publish) :
    Subscribe.replyTo p ≠ some (.publish m) := by
  cases p with
  | publish q =>
    simp only [Subscribe.replyTo, Subscribe.ackFor]
    rcases q.packetId with - | id
    · simp
    · cases q.qos <;> simp
  | _ => simp [Subscribe.replyTo]

/-! ### `sub` -/

theorem receives_subscribe (showTopic : Bool) (limit : Option ℕ) :
    Receives (Subscribe.manner showTopic limit) where
  pubrec _ _ := replyTo_eq_pubrec
  pubrel _ := rfl

/-- The wait for the SUBACK opens no handshake. -/
theorem closed_wait_append_iff {s : Protocol.Subscribe} {filters : List String} {t : List Event}
    (ht : Transcript (Subscribe.waitManner filters) t) :
    Closed (.sent (.subscribe s) :: t ++ es) ↔ Closed es := by
  refine closed_append_iff (fun p ↦ ?_) fun a ↦ ?_
  · simpa using sent_notMem_of_reply ht (r := .publish p) nofun fun _ ↦ nofun
  · simpa using sent_notMem_of_reply ht (r := .pubrec a) nofun fun _ ↦ nofun

/-- **Closing a `sub` run.** A run that returned left no handshake open exactly if every QoS 2
PUBLISH its receive loop read was released by a PUBREL before the loop ended. -/
theorem closed_subscribe {args : Subscribe.SubArgs} {w w' : Net}
    (h : Subscribe.run args w = .ok () w') :
    Closed (w'.log.drop w.log.length) ↔ Released (Subscribe.receivedLater args w.inbox) := by
  obtain ⟨t, u, ht, hu, hreads, hlog⟩ := Subscribe.log_of_run_ok h
  have hsent : ∀ p, .sent (.publish p) ∉ u := fun p ↦
    sent_notMem_of_reply hu nofun fun q ↦ subscribe_replyTo_ne_publish q p
  rw [hlog, List.drop_left, closed_wait_append_iff ht, ← hreads,
    ← received_iff_released (receives_subscribe args.showTopic args.effectiveLimit) hu]
  refine ⟨Closed.received, fun hreceived ↦ ⟨fun pre p post heq ↦ ?_, hreceived⟩⟩
  have hmem : .sent (.publish p) ∈ u ++ [.sent (.disconnect .success)] := by
    rw [heq]
    simp
  simp [hsent p] at hmem

/-! ### `request` -/

theorem receives_request (showTopic : Bool) (count : ℕ) :
    Receives (Request.manner showTopic count) where
  pubrec _ _ := request_replyTo_eq_pubrec
  pubrel _ := rfl

theorem request_replyTo_ne_publish (p : Packet) (m : Protocol.Publish) :
    Request.replyTo p ≠ some (.publish m) := by
  by_cases h : ∃ a, p = .pubrec a
  · obtain ⟨a, rfl⟩ := h
    exact nofun
  · rw [Request.replyTo_of_ne_pubrec fun a ha ↦ h ⟨a, ha⟩]
    exact subscribe_replyTo_ne_publish p m

/-- **Closing a `request` run.** A run that returned left no handshake open exactly if every QoS 2
PUBLISH its loop read was released before the loop ended, and the request's own terminal
acknowledgement was among the packets read. -/
theorem closed_request {args : Request.RequestArgs} {w v w' : Net} {id : Option PacketId}
    (hpublish : Request.publishRequest args w = .ok id v) (h : Request.run args w = .ok () w') :
    Closed (w'.log.drop w.log.length) ↔
      Released (Request.repliesRead args.showTopic args.count v.inbox) ∧
        ∀ i, id = some i →
          Terminates args.qos i (Request.repliesRead args.showTopic args.count v.inbox) := by
  obtain ⟨t, ht, hv⟩ := (Request.wp_publishRequest args w).of_ok hpublish
  have hanswer : Request.answer args v = .ok () w' := by
    obtain ⟨id', v', hv', hanswer⟩ := bind_eq_ok.1 h
    rw [hpublish] at hv'
    cases hv'
    exact hanswer
  obtain ⟨-, u, hu, hreads, hc⟩ := (Request.wp_answer args v).of_ok hanswer
  have hsent : ∀ p, .sent (.publish p) ∉ u := fun p ↦
    sent_notMem_of_reply hu nofun fun q ↦ request_replyTo_ne_publish q p
  have hlog : w'.log.drop w.log.length = .sent (.subscribe (Subscribe.subscribePacket
      (succPacketId w.store.nextPacketId) [args.replyTopic] args.qos)) :: t ++
        (.sent (.publish (args.publish id)) :: (u ++ [.sent (.disconnect .success)])) := by
    rw [hc.log, hv]
    simp
  rw [hlog, closed_wait_append_iff ht, ← hreads,
    ← received_iff_released (receives_request args.showTopic args.count) hu]
  have hterminal : Terminal (args.publish id) (u ++ [.sent (.disconnect .success)]) ↔
      ∀ i, id = some i → Terminates args.qos i (receivedPackets u) := by
    rcases id with - | i
    · refine iff_of_true ?_ nofun
      simp only [Terminal, Request.RequestArgs.publish]
      cases args.qos <;> trivial
    · rw [terminal_iff_terminates (fun _ ↦ rfl) hu (show (args.publish (some i)).packetId = some i
        from rfl)]
      exact ⟨fun hi j hj ↦ by rw [← Option.some.inj hj]; exact hi, fun hi ↦ hi i rfl⟩
  rw [← hterminal, and_comm]
  have hall : Publish.AllTerminal (.sent (.publish (args.publish id)) :: [] ++
      (u ++ [.sent (.disconnect .success)])) ↔
      Terminal (args.publish id) ([] ++ (u ++ [.sent (.disconnect .success)])) ∧
        Publish.AllTerminal (u ++ [.sent (.disconnect .success)]) :=
    Publish.allTerminal_cons (by simp)
  have hrest : Publish.AllTerminal (u ++ [.sent (.disconnect .success)]) := by
    intro pre p post heq
    have hmem : .sent (.publish p) ∈ u ++ [.sent (.disconnect .success)] := by
      rw [heq]
      simp
    simp [hsent p] at hmem
  rw [and_iff_left hrest] at hall
  constructor
  · intro hclosed
    refine ⟨hall.1 hclosed.sent, fun pre a post heq ↦ ?_⟩
    exact hclosed.received (.sent (.publish (args.publish id)) :: pre) a post (by rw [heq]; rfl)
  · rintro ⟨hterm, hreceived⟩
    refine ⟨hall.2 hterm, fun pre a post heq ↦ ?_⟩
    rcases pre with - | ⟨e, pre⟩
    · cases (List.cons_eq_cons.1 heq).1
    · exact hreceived pre a post (List.cons_eq_cons.1 heq).2

/-! ### The three commands -/

/-- **Closed, exactly.** A run that returned left no handshake open: of `pub`, if the
acknowledgements matched the calls, and for up to 65535 messages only if; of `sub`, exactly if
every QoS 2 PUBLISH its loop read was released; of `request`, exactly if in addition its own
terminal acknowledgement was among the packets its loop read. -/
theorem closed_iff (w w' : Net) :
    (∀ args : Publish.PubArgs, Publish.run args w = .ok () w' →
      (Publish.AcksMatch args.messages w.store.nextPacketId w.inbox →
        Closed (w'.log.drop w.log.length)) ∧
      (args.messages.length ≤ 65535 → Closed (w'.log.drop w.log.length) →
        Publish.AcksMatch args.messages w.store.nextPacketId w.inbox)) ∧
    (∀ args : Subscribe.SubArgs, Subscribe.run args w = .ok () w' →
      (Closed (w'.log.drop w.log.length) ↔ Released (Subscribe.receivedLater args w.inbox))) ∧
    (∀ (args : Request.RequestArgs) (v : Net) (id : Option PacketId),
      Request.publishRequest args w = .ok id v → Request.run args w = .ok () w' →
      (Closed (w'.log.drop w.log.length) ↔
        Released (Request.repliesRead args.showTopic args.count v.inbox) ∧
          ∀ i, id = some i →
            Terminates args.qos i (Request.repliesRead args.showTopic args.count v.inbox))) :=
  ⟨fun _ ↦ Publish.closed_run, fun _ ↦ closed_subscribe, fun _ _ _ ↦ closed_request⟩

/-- `pub -t x -m h -q 1` against a broker that acknowledges it. -/
def pubArgs : Publish.PubArgs where
  topic := "x"
  source := .once [104]
  qos := .atLeastOnce
  retain := false
  properties := {}

/-- `sub -t x -q 2 -n 1 --max-messages 0`. -/
def subArgs : Subscribe.SubArgs where
  topic := ["x"]
  qos := .exactlyOnce
  showTopic := false
  count := some 1
  maxMessages := 0

/-- `request -t q --reply-topic r -q 1` over v5. -/
def requestArgs : Request.RequestArgs where
  version := .v5
  topic := "q"
  replyTopic := "r"
  message := none
  qos := .atLeastOnce
  showTopic := false
  count := 1

/-- A message from the broker. -/
def delivered (qos : QoS) (packetId : Option PacketId) : Packet :=
  .publish ⟨false, qos, false, "x", packetId, {}, [104]⟩

/-- A fresh connection on which these packets arrive. -/
def arriving (packets : List Packet) : Net :=
  Net.connected 60 (fun _ ↦ none) (packets.map .packet)

/-- What a command comes to on it, as a log. -/
def eventsOf (m : Command Unit) (packets : List Packet) : List Event :=
  (Outcome.world (m (arriving packets))).log

/-- A `pub` run, a `sub` run with a QoS 2 message that is released, and a `request` run that leave
nothing open. -/
theorem closed_iff_acknowledged :
    Closed (eventsOf (Publish.run pubArgs) [.puback ⟨1, .success⟩]) ∧
    Closed (eventsOf (Subscribe.run { subArgs with count := some 2 })
      [.suback ⟨1, [.success]⟩, delivered .exactlyOnce (some 7), .pubrel ⟨7, .success⟩,
        delivered .atMostOnce none]) ∧
    Closed (eventsOf (Request.run requestArgs)
      [.suback ⟨1, [.success]⟩, .puback ⟨2, .success⟩, delivered .atMostOnce none]) := by
  refine ⟨?_, ?_, ?_⟩
  · refine ((closed_iff (arriving [.puback ⟨1, .success⟩]) _).1 pubArgs rfl).1 ?_
    rintro p a xs hp ha -
    obtain ⟨rfl, rfl⟩ : .puback ⟨1, .success⟩ = p ∧ [] = xs := by
      simpa [arriving, Net.connected, Publish.awaitAck, Publish.ackOf] using hp
    obtain rfl : ⟨1, .success⟩ = a := by simpa [Publish.ackOf] using ha
    exact ⟨rfl, rfl, trivial⟩
  · refine ((closed_iff (arriving [.suback ⟨1, [.success]⟩, delivered .exactlyOnce (some 7),
      .pubrel ⟨7, .success⟩, delivered .atMostOnce none])
      _).2.1 { subArgs with count := some 2 } rfl).2 ?_
    intro ps p qs id heq hid
    change [delivered .exactlyOnce (some 7), .pubrel ⟨7, .success⟩, delivered .atMostOnce none] =
      ps ++ p :: qs at heq
    rcases ps with _ | ⟨_, _ | ⟨_, _ | ⟨_, ps⟩⟩⟩
    · obtain ⟨rfl, rfl⟩ := List.cons.inj heq
      cases hid
      exact ⟨⟨7, .success⟩, rfl, List.mem_cons_self⟩
    · obtain ⟨-, heq⟩ := List.cons.inj heq
      obtain ⟨rfl, rfl⟩ := List.cons.inj heq
      cases hid
    · obtain ⟨-, heq⟩ := List.cons.inj heq
      obtain ⟨-, heq⟩ := List.cons.inj heq
      obtain ⟨rfl, rfl⟩ := List.cons.inj heq
      cases hid
    · have hlength := congrArg List.length heq
      simp at hlength
  · refine ((closed_iff (arriving [.suback ⟨1, [.success]⟩, .puback ⟨2, .success⟩,
      delivered .atMostOnce none]) _).2.2 requestArgs _ (some 2) rfl rfl).2 ⟨?_, ?_⟩
    · intro ps p qs id heq hid
      have hmem : p ∈ [.puback ⟨2, .success⟩, delivered .atMostOnce none] := by
        rw [show [.puback ⟨2, .success⟩, delivered .atMostOnce none] = ps ++ p :: qs from heq]
        simp
      simp only [List.mem_cons, List.not_mem_nil, or_false] at hmem
      rcases hmem with rfl | rfl <;> cases hid
    · intro i hi
      obtain rfl := Option.some.inj hi
      exact ⟨⟨2, .success⟩, rfl, List.mem_cons_self⟩

/-- The message that reaches the limit is a QoS 2 PUBLISH: the run returns before its PUBREL. -/
theorem not_closed_last_message :
    ¬Closed (eventsOf (Subscribe.run subArgs)
      [.suback ⟨1, [.success]⟩, delivered .exactlyOnce (some 7), .pubrel ⟨7, .success⟩]) := by
  intro h
  obtain ⟨rel, comp, -, -, hsub⟩ := h.received
    [.sent (.subscribe (Subscribe.subscribePacket 1 ["x"] .exactlyOnce)),
      .received (.suback ⟨1, [.success]⟩), .received (delivered .exactlyOnce (some 7))]
    ⟨7, .success⟩ [.printed ⟨false, .exactlyOnce, false, "x", some 7, {}, [104]⟩ false, .advanced,
      .sent (.disconnect .success)] rfl
  have hmem := hsub.subset List.mem_cons_self
  simp at hmem

end Closing

end PulsemqCli
