import PulsemqCli.Subscribe

/-!
# `request`: publish a request, wait for the replies

The command subscribes to the reply topic, publishes the request, and reads until it has seen as
many replies as it was asked for. `publishRequest` is what comes before that loop.

The loop looks at its count before it reads, and counts the PUBLISHes it was sent, wherever they
come from: the subscription is to the reply topic alone, and no reply is matched with the request.
What `request` does with a PUBREC is its own: its request was published without a wait for an
acknowledgement, so the PUBREC is read in this loop, and is answered with a PUBREL here.
-/

namespace PulsemqCli

namespace Request

open Reactive Protocol Client Receive Subscribe

/-- The arguments of `request`, with the part of the connection's that the command reads. -/
structure RequestArgs where
  version : ProtocolVersion
  topic : String
  replyTopic : String
  message : Option String
  qos : QoS
  showTopic : Bool
  count : ℕ
  deriving DecidableEq, Repr

/-! ### The command -/

/-- v5 carries the reply topic in a property; v3.1.1 has no properties. -/
def RequestArgs.properties (args : RequestArgs) : Properties :=
  if args.version.hasProperties then { responseTopic := some args.replyTopic } else {}

/-- The PUBLISH that carries the request. -/
def RequestArgs.publish (args : RequestArgs) (packetId : Option PacketId) : Protocol.Publish where
  dup := false
  qos := args.qos
  retain := false
  topic := args.topic
  packetId := packetId
  properties := args.properties
  payload := (args.message.getD "").toUTF8.toList

/-- `run` up to the request's PUBLISH; returns the identifier the request was given. -/
def publishRequest (args : RequestArgs) : Command (Option PacketId) := do
  if args.version = .v3_1 then
    fail (.unsupported ("request requires MQTT v5.0 or v3.1.1: v3.1 has no Response Topic property "
      ++ "and no way to correlate a reply"))
  subscribe [args.replyTopic] args.qos
  let packetId ← match args.qos with
    | .atMostOnce => pure none
    | _ => some <$> nextPacketId
  send (.publish (args.publish packetId))
  return packetId

/-- What the loop does with a packet; the condition of the `while` is checked after it. -/
def onPacket (showTopic : Bool) (count seen : ℕ) : Packet → Command (ℕ ⊕ Unit)
  | .publish p => do
    acknowledge p
    printMessage p showTopic
    emit .advanced
    if seen + 1 < count then return .inl (seen + 1)
    return .inr ()
  | .pubrel rel => do
    send (.pubcomp ⟨rel.packetId, .success⟩)
    return .inl seen
  -- The acknowledgements for our own request, on the way through.
  | .puback _ | .pubcomp _ | .pingresp => return .inl seen
  | .pubrec ack => do
    send (.pubrel ⟨ack.packetId, .success⟩)
    return .inl seen
  | .disconnect code => fail (.rejected "request" code)
  | _ => return .inl seen

/-- The loop that waits for the replies. -/
def awaitReplies (showTopic : Bool) (count : ℕ) : Command Unit :=
  if 0 < count then react (fun seen ↦ recvKeepalive (onPacket showTopic count seen) seen) 0
  else return ()

/-- `run` from the request's PUBLISH on. -/
def answer (args : RequestArgs) : Command Unit := do
  awaitReplies args.showTopic args.count
  disconnect

/-- `request::run`, from the connection on. -/
def run (args : RequestArgs) : Command Unit := do
  let _ ← publishRequest args
  answer args

/-! ### The manner of the loop -/

/-- The reply a packet is given: as in `sub`, and PUBREL for any PUBREC. -/
def replyTo : Packet → Option Packet
  | .pubrec ack => some (.pubrel ⟨ack.packetId, .success⟩)
  | p => Subscribe.replyTo p

/-- To everything but a PUBREC, `request` replies as `sub` does. -/
theorem replyTo_of_ne_pubrec {p : Packet} (h : ∀ ack, p ≠ .pubrec ack) :
    replyTo p = Subscribe.replyTo p := by
  cases p with
  | pubrec ack => exact absurd rfl (h ack)
  | _ => rfl

/-- Reply, then print; done at the count. -/
def manner (showTopic : Bool) (count : ℕ) : Manner ℕ where
  before _ es := es = []
  reply := replyTo
  after p es := es = delivery showTopic p
  verdict seen
    | .publish _ => if seen + 1 < count then .again (seen + 1) else .done
    | .disconnect code => .refused (.rejected "request" code)
    | _ => .again seen
  ending := clientEnding
  before_delivers := delivers_of_eq_nil
  after_delivers := delivers_of_eq_delivery showTopic

/-- The packets the loop reads off a list of stimuli: none, if no reply is waited for. -/
def repliesRead (showTopic : Bool) (count : ℕ) (xs : List Stimulus) : List Packet :=
  if 0 < count then reads (manner showTopic count) 0 xs else []

/-- How the loop ends on a list of stimuli. -/
def repliesFinish (showTopic : Bool) (count : ℕ) (xs : List Stimulus) :
    Except (Reactive.Stop Error) Unit :=
  if 0 < count then finish (manner showTopic count) 0 xs else .ok ()

/-- The loop follows its manner. -/
theorem follows_awaitReplies (showTopic : Bool) (count : ℕ) :
    Follows (manner showTopic count)
      fun seen ↦ recvKeepalive (onPacket showTopic count seen) seen := by
  refine follows_recvKeepalive rfl fun seen p w ↦ ?_
  cases p with
  | publish m =>
    simp only [onPacket, printMessage, acknowledge_eq, wp_bind]
    have hlog : ∀ v : Net, v.log = (w.reply (ackFor m)).log ++ delivery showTopic (.publish m) →
        ∃ b a, (manner showTopic count).before (.publish m) b ∧
          (manner showTopic count).after (.publish m) a ∧
          v.log = w.log ++ (b ++ ((manner showTopic count).reply (.publish m)).toList.map .sent
            ++ a) :=
      fun v hv ↦ ⟨[], _, rfl, rfl, by simpa [manner, replyTo, Subscribe.replyTo] using hv⟩
    refine wp_sendReply _ ?_ ?_
    · simp only [wp_emit]
      split
      next hagain =>
        exact ⟨by simp, by simp, hlog _ (by simp [delivery]), by simp [manner, hagain]⟩
      next hdone =>
        exact ⟨by simp, by simp, hlog _ (by simp [delivery]), by simp [manner, hdone]⟩
    · intro r e hr hv
      exact Or.inr ⟨hv, ⟨e, rfl⟩, [], r, rfl, hr, rfl⟩
  | pubrel a | pubrec a =>
    simp only [onPacket, wp_bind]
    refine wp_send _ ?_ ?_
    · exact ⟨rfl, rfl, ⟨[], [], rfl, rfl, rfl⟩, rfl⟩
    · exact fun e hv ↦ Or.inr ⟨hv, ⟨e, rfl⟩, [], _, rfl, rfl, rfl⟩
  | disconnect code => exact Or.inl ⟨_, rfl, rfl, rfl, rfl, rfl, rfl⟩
  | _ => exact ⟨rfl, rfl, ⟨[], [], rfl, rfl, by simp [manner, replyTo, Subscribe.replyTo]⟩, rfl⟩

/-- A run gets to its loop only with the subscription granted and the request written. -/
theorem wp_publishRequest (args : RequestArgs) (w : Net) :
    wp (publishRequest args)
      (fun id v ↦ ∃ t, Transcript (waitManner [args.replyTopic]) t ∧
        v.log = w.log ++ (.sent (.subscribe (subscribePacket
          (succPacketId w.store.nextPacketId) [args.replyTopic] args.qos)) :: t ++
          [.sent (.publish (args.publish id))]))
      (fun _ _ ↦ True) w := by
  have hrest : ∀ (id : Option PacketId) (v : Net) (t : List Event),
      Transcript (waitManner [args.replyTopic]) t →
      v.log = (subscribed [args.replyTopic] args.qos w).log ++ t →
      wp (do send (.publish (args.publish id)); return id)
        (fun id v ↦ ∃ t, Transcript (waitManner [args.replyTopic]) t ∧
          v.log = w.log ++ (.sent (.subscribe (subscribePacket
            (succPacketId w.store.nextPacketId) [args.replyTopic] args.qos)) :: t ++
            [.sent (.publish (args.publish id))]))
        (fun _ _ ↦ True) v := by
    intro id v t ht hv
    rw [wp_bind]
    exact wp_send _ ⟨t, ht, by simp [hv, subscribed]⟩ fun _ _ ↦ trivial
  unfold publishRequest
  by_cases hversion : args.version = .v3_1
  · rw [if_pos hversion]
    trivial
  · rw [if_neg hversion]
    simp only [wp_bind]
    refine wp_subscribe _ _ ?_ (fun _ _ _ ↦ trivial) (fun _ _ _ _ _ ↦ trivial)
    rintro v ⟨-, t, ht, hv, -⟩ - -
    split
    · exact hrest none v t ht hv
    · exact hrest _ (allocated v) t ht hv

/-- **Specification of `answer`.** It returns only when the loop has seen its replies, and fails
as the loop does or at a write. -/
theorem wp_answer (args : RequestArgs) (w : Net) :
    wp (answer args)
      (fun _ w' ↦ repliesFinish args.showTopic args.count w.inbox = .ok () ∧
        ∃ u, Transcript (manner args.showTopic args.count) u ∧
          receivedPackets u = repliesRead args.showTopic args.count w.inbox ∧
          Concluded (manner args.showTopic args.count)
            (repliesRead args.showTopic args.count w.inbox) w w' u [.sent (.disconnect .success)])
      (fun e w' ↦
        (repliesFinish args.showTopic args.count w.inbox = .error e ∧
          ∃ u, Transcript (manner args.showTopic args.count) u ∧
            receivedPackets u = repliesRead args.showTopic args.count w.inbox ∧
            Concluded (manner args.showTopic args.count)
              (repliesRead args.showTopic args.count w.inbox) w w' u []) ∨
        (¬w.AcceptsWrites ∧ ∃ u d, Concluded (manner args.showTopic args.count)
          (repliesRead args.showTopic args.count w.inbox) w w' u d)) w := by
  unfold answer awaitReplies repliesRead repliesFinish
  by_cases hcount : 0 < args.count
  · simp only [if_pos hcount]
    exact wp_receive_disconnect (follows_awaitReplies args.showTopic args.count) 0 w
  · simp only [if_neg hcount, wp_bind, wp_pure]
    refine wp_send _ ?_ ?_
    · exact ⟨trivial, [], .nil, rfl, by simp, Or.inl .nil, by simp [Quiet], List.prefix_refl _⟩
    · exact fun e hv ↦ Or.inr ⟨hv, [], [.unsent (.disconnect .success)], by simp, Or.inl .nil,
        by simp [Quiet], List.prefix_refl _⟩

end Request

end PulsemqCli
