import PulsemqCli.Conformance
import PulsemqCli.Library.History

/-!
# The order of a request

"The subscribe must precede the publish, or a fast responder can answer before the subscription
exists and the reply is lost." `InOrder` says what must have happened before each thing that a
`request` run does, and `always_inOrder` that it has, whatever the broker sends and wherever the
connection fails.

A run goes through five stages, and each is a property of the log up to then: nothing written, the
SUBSCRIBE written, its SUBACK read, the subscription granted, the request written. `At K` says that
a run is at the stage `K` and that all it did so far was in order. `Leads` says of an event that it
is in order at one stage, and leads to the next; so each write and each read of the source has one
lemma, and the triples do the rest.

The stages are properties of the whole log and not of what was written last, because what must have
happened before a reply is printed happened several packets ago.
-/

namespace PulsemqCli

namespace Request

open Reactive Protocol Client Subscribe Conformance Transition

/-- The one SUBSCRIBE of a run has been written, and the first SUBACK that was read after it does
not refuse the reply topic. -/
def Granted (args : RequestArgs) (before : List Event) : Prop :=
  ∃ id pre ack post, before = pre ++ .received (.suback ack) :: post ∧
    .sent (.subscribe (subscribePacket id [args.replyTopic] args.qos)) ∈ pre ∧
    (∀ ack', .received (.suback ack') ∉ pre) ∧
    ∀ grant ∈ [args.replyTopic].zip ack.reasonCodes, grant.2.isError = false

/-- What comes before each event: the request is written right after the SUBSCRIBE, once that is
granted, with an identifier exactly if its QoS has acknowledgements; and what is printed is printed
after the request. -/
def InOrder (args : RequestArgs) (before : List Event) : Event → Prop
  | .sent (.publish p) =>
    (∃ id, p = args.publish id ∧ (id = none ↔ args.qos = .atMostOnce)) ∧
      (∃ id, sentPackets before =
        [.subscribe (subscribePacket id [args.replyTopic] args.qos)]) ∧
      Granted args before
  | .printed .. => ∃ p, .sent (.publish p) ∈ before
  | _ => True

variable {args : RequestArgs} {K K' : List Event → Prop} {e : Event}

/-! ### Stages -/

/-- Every event so far had its place. -/
def Ordered (args : RequestArgs) (w : Net) : Prop :=
  Throughout (InOrder args) w.log

/-- A run that is at a stage, with every event in its place. -/
def At (args : RequestArgs) (K : List Event → Prop) (w : Net) : Prop :=
  Ordered args w ∧ K w.log

/-- The event has its place at the stage `K`, and leads to the stage `K'`. -/
structure Leads (args : RequestArgs) (K : List Event → Prop) (e : Event)
    (K' : List Event → Prop) : Prop where
  inOrder : ∀ es, K es → InOrder args es e
  stage : ∀ es, K es → K' (es ++ [e])

/-- Nothing is written. -/
def Fresh (es : List Event) : Prop :=
  sentPackets es = [] ∧ ∀ ack, .received (.suback ack) ∉ es

/-- The SUBSCRIBE is written and not answered. -/
def Asked (args : RequestArgs) (es : List Event) : Prop :=
  (∃ id, sentPackets es = [.subscribe (subscribePacket id [args.replyTopic] args.qos)] ∧
    .sent (.subscribe (subscribePacket id [args.replyTopic] args.qos)) ∈ es) ∧
    ∀ ack, .received (.suback ack) ∉ es

/-- The SUBACK is read, and not looked at. -/
def Answered (args : RequestArgs) (ack : SubAck) (es : List Event) : Prop :=
  ∃ pre, es = pre ++ [.received (.suback ack)] ∧ Asked args pre

/-- The SUBSCRIBE is granted. -/
def Accepted (args : RequestArgs) (es : List Event) : Prop :=
  (∃ id, sentPackets es = [.subscribe (subscribePacket id [args.replyTopic] args.qos)]) ∧
    Granted args es

/-- The request is written. -/
def Sent (es : List Event) : Prop :=
  ∃ p, .sent (.publish p) ∈ es

/-- What a run at any stage has done was done in order. -/
theorem At.ordered {w : Net} (h : At args K w) : Ordered args w :=
  h.1

/-- A stage is about what was done, not about what is still to come. -/
theorem at_heedless : Heedless (At args K) :=
  fun _ _ h ↦ h

theorem at_emit (h : Leads args K e K') :
    Triple (At args K) (emit e : Command Unit) (fun _ ↦ At args K') (Ordered args) :=
  Triple.emit fun _ hw ↦
    ⟨throughout_snoc.2 ⟨hw.1, h.inOrder _ hw.2⟩, h.stage _ hw.2⟩

theorem at_send {p : Packet} (h : Leads args K (.sent p) K') :
    Triple (At args K) (send p) (fun _ ↦ At args K') (Ordered args) := by
  intro w hw
  refine wp_send p ⟨?_, ?_⟩ fun _ _ ↦ ?_
  · rw [Ordered, Net.wrote_log]
    exact throughout_snoc.2 ⟨hw.1, h.inOrder _ hw.2⟩
  · rw [Net.wrote_log]
    exact h.stage _ hw.2
  · rw [Ordered, Net.unwrote_log]
    exact throughout_snoc.2 ⟨hw.1, trivial⟩

/-- An identifier that is given out is no event. -/
theorem at_nextPacketId :
    Triple (At args K) nextPacketId (fun _ ↦ At args K) (Ordered args) := by
  intro w hw
  rw [wp_nextPacketId]
  exact hw

/-! ### Up to the request -/

/-- The SUBSCRIBE comes first. -/
theorem leads_subscribe (id : PacketId) :
    Leads args Fresh (.sent (.subscribe (subscribePacket id [args.replyTopic] args.qos)))
      (Asked args) where
  inOrder := fun _ _ ↦ trivial
  stage := by
    rintro es ⟨hnone, hsuback⟩
    refine ⟨⟨id, ?_, List.mem_append_right _ (List.mem_singleton_self _)⟩, fun ack hmem ↦ ?_⟩
    · rw [sentPackets_sent, hnone]
      rfl
    · rcases List.mem_append.1 hmem with hmem | hmem
      · exact hsuback ack hmem
      · cases List.mem_singleton.1 hmem

/-- Other packets than the SUBACK are passed over. -/
theorem leads_received {p : Packet} (hp : ∀ ack, p ≠ .suback ack) :
    Leads args (Asked args) (.received p) (Asked args) where
  inOrder := fun _ _ ↦ trivial
  stage := by
    rintro es ⟨⟨id, hsent, hmem⟩, hsuback⟩
    refine ⟨⟨id, ?_, List.mem_append_left _ hmem⟩, fun ack hack ↦ ?_⟩
    · rw [sentPackets_of_not_sent (by simp)]
      exact hsent
    · rcases List.mem_append.1 hack with hack | hack
      · exact hsuback ack hack
      · cases List.mem_singleton.1 hack
        exact hp ack rfl

/-- Then its SUBACK is read. -/
theorem leads_suback (ack : SubAck) :
    Leads args (Asked args) (.received (.suback ack)) (Answered args ack) where
  inOrder := fun _ _ ↦ trivial
  stage := fun es h ↦ ⟨es, rfl, h⟩

/-- What is gone through without an error is granted. -/
theorem at_checkGrants {K : List Event → Prop} (grants : List (String × ReasonCode)) :
    Triple (At args K) (checkGrants grants)
      (fun _ w ↦ At args K w ∧ ∀ grant ∈ grants, grant.2.isError = false) (Ordered args) := by
  induction grants with
  | nil => exact Triple.pure fun _ h ↦ ⟨h, fun _ hmem ↦ absurd hmem List.not_mem_nil⟩
  | cons grant grants ih =>
    refine Triple.ite (fun _ ↦ Triple.fail fun _ h ↦ h.ordered) fun hcode ↦ ?_
    refine ih.mono (fun _ h ↦ h) ?_
    rintro - w ⟨hw, hrest⟩
    refine ⟨hw, fun grant' hmem ↦ ?_⟩
    rcases List.mem_cons.1 hmem with rfl | hmem
    · exact Bool.eq_false_iff.2 hcode
    · exact hrest grant' hmem

/-- **The wait for the SUBACK ends with the subscription granted.** -/
theorem at_subscribe :
    Triple (At args Fresh) (subscribe [args.replyTopic] args.qos) (fun _ ↦ At args (Accepted args))
      (Ordered args) := by
  refine at_nextPacketId.bind fun id ↦ (at_send (leads_subscribe id)).bind fun _ ↦ ?_
  refine Triple.react at_heedless (fun _ h ↦ h.ordered) (fun s x ↦ ?_) ()
  cases x with
  | packet p =>
    cases p with
    | suback ack =>
      refine (at_emit (leads_suback ack)).bind fun _ ↦ (at_checkGrants _).bind fun _ ↦ ?_
      refine Triple.pure ?_
      rintro w ⟨⟨hw, pre, hlog, ⟨id, hsent, hmem⟩, hsuback⟩, hgrants⟩
      refine ⟨hw, ⟨id, ?_⟩, id, pre, ack, [], hlog, hmem, hsuback, hgrants⟩
      rw [hlog, sentPackets_of_not_sent (by simp)]
      exact hsent
    | disconnect code =>
      exact (at_emit (leads_received (by simp))).bind fun _ ↦ Triple.fail fun _ h ↦ h.ordered
    | _ => exact (at_emit (leads_received (by simp))).bind fun _ ↦ Triple.pure fun _ h ↦ h
  | eof | readError e => exact Triple.fail fun _ h ↦ h.ordered
  | idle | stop => exact Triple.pure fun _ h ↦ h

/-- Then the request is written. -/
theorem leads_publish {id : Option PacketId} (hid : id = none ↔ args.qos = .atMostOnce) :
    Leads args (Accepted args) (.sent (.publish (args.publish id))) Sent where
  inOrder := fun _ h ↦ ⟨⟨id, rfl, hid⟩, h⟩
  stage := fun _ _ ↦ ⟨_, List.mem_append_right _ (List.mem_singleton_self _)⟩

/-- **The request is written once its replies are subscribed to.** -/
theorem at_publishRequest :
    Triple (At args Fresh) (publishRequest args) (fun _ ↦ At args Sent) (Ordered args) := by
  by_cases hversion : args.version = .v3_1
  · rw [publishRequest, if_pos hversion]
    exact Triple.fail fun _ h ↦ h.ordered
  · cases hqos : args.qos with
    | atMostOnce =>
      have hrequest : publishRequest args = subscribe [args.replyTopic] args.qos >>= fun _ ↦
          send (.publish (args.publish none)) >>= fun _ ↦ return none := by
        rw [publishRequest, if_neg hversion, hqos]
        rfl
      rw [hrequest]
      refine at_subscribe.bind fun _ ↦ (at_send (leads_publish ?_)).bind fun _ ↦
        Triple.pure fun _ h ↦ h
      exact iff_of_true rfl hqos
    | atLeastOnce | exactlyOnce =>
      have hrequest : publishRequest args = subscribe [args.replyTopic] args.qos >>= fun _ ↦
          nextPacketId >>= fun id ↦ send (.publish (args.publish (some id))) >>= fun _ ↦
          return some id := by
        rw [publishRequest, if_neg hversion, hqos]
        simp only [map_eq_pure_bind, bind_assoc, pure_bind]
      rw [hrequest]
      refine at_subscribe.bind fun _ ↦ at_nextPacketId.bind fun id ↦
        (at_send (leads_publish ?_)).bind fun _ ↦ Triple.pure fun _ h ↦ h
      exact iff_of_false (by simp) (by simp [hqos])

/-! ### After the request -/

/-- No second PUBLISH is written. -/
theorem leads_of_sent (he : ∀ p, e ≠ .sent (.publish p)) : Leads args Sent e Sent where
  inOrder := by
    rintro es ⟨p, hmem⟩
    cases e with
    | sent q =>
      cases q with
      | publish q => exact absurd rfl (he q)
      | _ => trivial
    | printed => exact ⟨p, hmem⟩
    | _ => trivial
  stage := by
    rintro es ⟨p, hmem⟩
    exact ⟨p, List.mem_append_left _ hmem⟩

/-- Acknowledging a reply is in order once the request is written. -/
theorem sent_acknowledge (p : Protocol.Publish) :
    Triple (At args Sent) (acknowledge p) (fun _ ↦ At args Sent) (Ordered args) := by
  unfold acknowledge
  cases p.packetId with
  | none => exact Triple.pure fun _ h ↦ h
  | some id =>
    cases p.qos with
    | atMostOnce => exact Triple.pure fun _ h ↦ h
    | atLeastOnce | exactlyOnce => exact at_send (leads_of_sent (by simp))

/-- What the loop does with a packet. -/
theorem sent_onPacket (showTopic : Bool) (count seen : ℕ) (p : Packet) :
    Triple (At args Sent) (onPacket showTopic count seen p)
      (Sum.elim (fun _ ↦ At args Sent) fun _ ↦ At args Sent) (Ordered args) := by
  cases p with
  | publish m =>
    refine (sent_acknowledge m).bind fun _ ↦ (at_emit (leads_of_sent (by simp))).bind fun _ ↦
      (at_emit (leads_of_sent (by simp))).bind fun _ ↦ ?_
    exact Triple.ite (fun _ ↦ Triple.pure fun _ h ↦ h) fun _ ↦ Triple.pure fun _ h ↦ h
  | pubrel | pubrec =>
    exact (at_send (leads_of_sent (by simp))).bind fun _ ↦ Triple.pure fun _ h ↦ h
  | disconnect code => exact Triple.fail fun _ h ↦ h.ordered
  | _ => exact Triple.pure fun _ h ↦ h

theorem sent_awaitReplies (showTopic : Bool) (count : ℕ) :
    Triple (At args Sent) (awaitReplies showTopic count) (fun _ ↦ At args Sent)
      (Ordered args) := by
  refine Triple.ite (fun _ ↦ ?_) fun _ ↦ Triple.pure fun _ h ↦ h
  refine Triple.react at_heedless (fun _ h ↦ h.ordered)
    (fun seen x ↦ triple_recvKeepalive (fun x ↦ ?_) (at_send (leads_of_sent (by simp))) x) 0
  cases x with
  | packet p =>
    exact (at_emit (leads_of_sent (by simp))).bind fun _ ↦ sent_onPacket showTopic count seen p
  | eof | readError e => exact Triple.fail fun _ h ↦ h.ordered
  | idle | stop => exact Triple.pure fun _ h ↦ h

/-- **A request is made in order.** Whatever the broker sends, and wherever the connection fails: a
run writes no PUBLISH but the request, at most once, right after its one SUBSCRIBE and only when the
first SUBACK it has read since does not refuse the reply topic; and it prints nothing before. -/
theorem always_inOrder (args : RequestArgs) (keepAlive : UInt16) (fault : ℕ → Option MqttError)
    (inbox : List Stimulus) :
    Throughout (InOrder args)
      (Outcome.world (run args (Net.connected keepAlive fault inbox))).log := by
  have hrun : Triple (At args Fresh) (run args) (fun _ ↦ Ordered args) (Ordered args) :=
    at_publishRequest.bind fun _ ↦ (sent_awaitReplies args.showTopic args.count).bind fun _ ↦
      (at_send (leads_of_sent (by simp))).mono (fun _ h ↦ h) fun _ _ h ↦ h.ordered
  exact hrun.world ⟨throughout_nil, rfl, fun _ h ↦ absurd h List.not_mem_nil⟩

end Request

end PulsemqCli
