import PulsemqCli.Receive

/-!
# `sub`: subscribe, then print messages

`subscribe` sends one SUBSCRIBE and waits for its SUBACK; `receive` is the loop that acknowledges
and prints what arrives, until a limit is reached; `run` is the two of them and a DISCONNECT.
`subscribe`, `acknowledge` and `printMessage` are shared with `request`.

The wait for the SUBACK passes over every other packet, whatever it is, and the receive loop
acknowledges before it prints. Both are stated as manners, so that the general results on receive
loops apply. `log_of_run_ok` puts a run that returned together from its phases, and is where the
modules on particular properties of `sub` begin.
-/

namespace PulsemqCli

namespace Subscribe

open Reactive Protocol Client Receive

/-- The arguments of `sub` that are left once the connection is up. -/
structure SubArgs where
  topic : List String
  qos : QoS
  showTopic : Bool
  count : Option ℕ
  maxMessages : ℕ
  deriving DecidableEq, Repr

/-- The smaller of `--count` and `--max-messages`; an absent count and a ceiling of 0 are both no
limit. -/
def SubArgs.effectiveLimit (args : SubArgs) : Option ℕ :=
  let ceiling := if args.maxMessages ≠ 0 then some args.maxMessages else none
  match args.count, ceiling with
  | some a, some b => some (min a b)
  | some a, none => some a
  | none, some b => some b
  | none, none => none

/-! ### The command -/

/-- The SUBSCRIBE that carries every filter. -/
def subscribePacket (packetId : PacketId) (filters : List String) (qos : QoS) :
    Protocol.Subscribe where
  packetId := packetId
  properties := {}
  filters := filters.map fun f ↦
    { filter := f
      qos := qos
      noLocal := false
      retainAsPublished := false
      retainHandling := .sendAtSubscribe }

/-- Fail at the first filter whose Reason Code is an error. -/
def checkGrants : List (String × ReasonCode) → Command Unit
  | [] => return ()
  | (filter, code) :: rest =>
    if code.isError then fail (.rejected ("subscription to " ++ filter) code)
    else checkGrants rest

/-- What `subscribe` does with a packet while it waits for the SUBACK. -/
def awaitSubAck (filters : List String) : Packet → Command (Unit ⊕ Unit)
  | .suback ack => do
    checkGrants (filters.zip ack.reasonCodes)
    return .inr ()
  | .disconnect code => fail (.rejected "subscription" code)
  | _ => return .inl ()

/-- Send one SUBSCRIBE carrying every filter and check the SUBACK. -/
def subscribe (filters : List String) (qos : QoS) : Command Unit := do
  let packetId ← nextPacketId
  send (.subscribe (subscribePacket packetId filters qos))
  react (fun s ↦ recv (awaitSubAck filters) s) ()

/-- Acknowledge an inbound PUBLISH per its QoS. -/
def acknowledge (publish : Protocol.Publish) : Command Unit :=
  match publish.packetId with
  | none => return ()
  | some id =>
    let ack : PubAck := ⟨id, .success⟩
    match publish.qos with
    | .atMostOnce => return ()
    | .atLeastOnce => send (.puback ack)
    | .exactlyOnce => send (.pubrec ack)

/-- Write a message to stdout. -/
def printMessage (publish : Protocol.Publish) (showTopic : Bool) : Command Unit :=
  emit (.printed publish showTopic)

/-- What the receive loop does with a packet. -/
def onPacket (showTopic : Bool) (limit : Option ℕ) (seen : ℕ) : Packet → Command (ℕ ⊕ Unit)
  | .publish p => do
    acknowledge p
    printMessage p showTopic
    emit .advanced
    if limit.any (· ≤ seen + 1) then return .inr ()
    return .inl (seen + 1)
  | .pubrel rel => do
    send (.pubcomp ⟨rel.packetId, .success⟩)
    return .inl seen
  | .disconnect code => fail (.rejected "subscription" code)
  | _ => return .inl seen

/-- The receive loop. -/
def receive (showTopic : Bool) (limit : Option ℕ) : Command Unit :=
  react (fun seen ↦ recvKeepalive (onPacket showTopic limit seen) seen) 0

/-- `subscribe::run`, from the connection on. -/
def run (args : SubArgs) : Command Unit := do
  if args.topic.isEmpty then fail (.usage "sub needs at least one --topic")
  let limit := args.effectiveLimit
  subscribe args.topic args.qos
  -- An already satisfied limit exits before the first read.
  if limit = some 0 then disconnect
  else do
    receive args.showTopic limit
    disconnect

/-! ### The manners of the two loops

A manner says what a loop does with a packet: what it writes and prints before it goes on, and
whether it does go on. The code above does the same in its own order of calls; `follows_awaitSubAck`
and `follows_receive` say so. -/

/-- Wait for a SUBACK that grants every filter; nothing else is dealt with. -/
def waitManner (filters : List String) : Manner Unit where
  before _ es := es = []
  reply _ := none
  after _ es := es = []
  verdict _
    | .suback ack =>
      match (filters.zip ack.reasonCodes).find? fun grant ↦ grant.2.isError with
      | some (filter, code) => .refused (.rejected ("subscription to " ++ filter) code)
      | none => .done
    | .disconnect code => .refused (.rejected "subscription" code)
    | _ => .again ()
  ending := clientEnding
  before_delivers := delivers_of_eq_nil
  after_delivers := delivers_of_eq_nil

/-- The acknowledgement a received PUBLISH is due. -/
def ackFor (p : Protocol.Publish) : Option Packet :=
  match p.packetId with
  | none => none
  | some id =>
    match p.qos with
    | .atMostOnce => none
    | .atLeastOnce => some (.puback ⟨id, .success⟩)
    | .exactlyOnce => some (.pubrec ⟨id, .success⟩)

/-- The reply a received packet is due: an acknowledgement for a PUBLISH, PUBCOMP for PUBREL. -/
def replyTo : Packet → Option Packet
  | .publish p => ackFor p
  | .pubrel rel => some (.pubcomp ⟨rel.packetId, .success⟩)
  | _ => none

/-- What is done with a packet once it is replied to: a PUBLISH is printed and counted. -/
def delivery (showTopic : Bool) : Packet → List Event
  | .publish p => [.printed p showTopic, .advanced]
  | _ => []

theorem delivers_of_eq_delivery (showTopic : Bool) (p : Packet) (es : List Event)
    (h : es = delivery showTopic p) : ∀ e ∈ es, Delivers e := by
  subst h
  intro e he
  cases p with
  | publish m =>
    simp only [delivery, List.mem_cons, List.not_mem_nil, or_false] at he
    rcases he with rfl | rfl <;> trivial
  | _ => cases he

/-- Reply, then print; done at the limit. -/
def manner (showTopic : Bool) (limit : Option ℕ) : Manner ℕ where
  before _ es := es = []
  reply := replyTo
  after p es := es = delivery showTopic p
  verdict seen
    | .publish _ => if limit.any (· ≤ seen + 1) then .done else .again (seen + 1)
    | .disconnect code => .refused (.rejected "subscription" code)
    | _ => .again seen
  ending := clientEnding
  before_delivers := delivers_of_eq_nil
  after_delivers := delivers_of_eq_delivery showTopic

/-! ### Specifications

`subscribe` by its weakest precondition and the loop by its manner, and from these two what a whole
run that returned has in its log. -/

/-- `acknowledge` writes the acknowledgement a PUBLISH is due, if any. -/
theorem acknowledge_eq (p : Protocol.Publish) : acknowledge p = sendReply (ackFor p) := by
  unfold acknowledge ackFor
  rcases p.packetId with - | id
  · rfl
  · cases p.qos <;> rfl

/-- `checkGrants` fails at the first filter whose Reason Code is an error. -/
theorem wp_checkGrants (grants : List (String × ReasonCode)) {Q : Unit → Net → Prop}
    {E : Stop Error → Net → Prop} {w : Net}
    (granted : grants.find? (fun grant ↦ grant.2.isError) = none → Q () w)
    (refused : ∀ filter code, grants.find? (fun grant ↦ grant.2.isError) = some (filter, code) →
      E (.failed (.rejected ("subscription to " ++ filter) code)) w) :
    wp (checkGrants grants) Q E w := by
  induction grants with
  | nil => exact granted rfl
  | cons grant grants ih =>
    obtain ⟨filter, code⟩ := grant
    rw [checkGrants]
    rcases h : code.isError with - | -
    · rw [List.find?_cons_of_neg (by simp [h])] at granted refused
      exact ih granted refused
    · rw [List.find?_cons_of_pos (by simp [h])] at refused
      exact refused filter code rfl

/-- The wait for the SUBACK follows its manner. -/
theorem follows_awaitSubAck (filters : List String) :
    Follows (waitManner filters) fun s ↦ recv (awaitSubAck filters) s := by
  refine follows_recv rfl fun s p w ↦ ?_
  cases p with
  | suback ack =>
    simp only [awaitSubAck, wp_bind]
    refine wp_checkGrants _ ?_ ?_
    · exact fun h ↦ ⟨rfl, rfl, ⟨[], [], rfl, rfl, by simp [waitManner]⟩, by simp [waitManner, h]⟩
    · exact fun filter code h ↦ Or.inl ⟨_, rfl, by simp [waitManner, h], rfl, rfl, rfl, rfl⟩
  | disconnect code => exact Or.inl ⟨_, rfl, rfl, rfl, rfl, rfl, rfl⟩
  | _ => exact ⟨rfl, rfl, ⟨[], [], rfl, rfl, by simp [waitManner]⟩, rfl⟩

/-- The world in which the SUBSCRIBE has just been written. -/
def subscribed (filters : List String) (qos : QoS) (w : Net) : Net :=
  (allocated w).wrote
    (.subscribe (subscribePacket (succPacketId w.store.nextPacketId) filters qos))

/-- **Specification of `subscribe`.** It returns only with a SUBACK that grants every filter, what
came before it read and not dealt with. -/
theorem wp_subscribe (filters : List String) (qos : QoS) {Q : Unit → Net → Prop}
    {E : Stop Error → Net → Prop} {w : Net}
    (granted : ∀ w', Ended (waitManner filters) () (.ok ()) (subscribed filters qos w) w' →
      w'.store.fault = w.store.fault →
      w'.inbox = remaining (waitManner filters) () w.inbox → Q () w')
    (stopped : ∀ e w', Ended (waitManner filters) () (.error e) (subscribed filters qos w) w' ∨
      Broken (waitManner filters) () e (subscribed filters qos w) w' → E e w')
    (unwritten : ∀ e w' p, ¬w.AcceptsWrites → w'.log = w.log ++ [.unsent p] → E e w') :
    wp (subscribe filters qos) Q E w := by
  simp only [subscribe, wp_bind, wp_nextPacketId]
  refine wp_send _ ?_ ?_
  · refine (wp_receive (follows_awaitSubAck filters) () (subscribed filters qos w)).mono ?_ ?_
    · rintro - w' ⟨hended, hfault, hinbox⟩
      exact granted w' hended hfault (hinbox clientEnding_ne_ok)
    · exact stopped
  · exact fun e hv ↦ unwritten _ _ _ hv rfl

/-- The receive loop follows its manner. -/
theorem follows_receive (showTopic : Bool) (limit : Option ℕ) :
    Follows (manner showTopic limit)
      fun seen ↦ recvKeepalive (onPacket showTopic limit seen) seen := by
  refine follows_recvKeepalive rfl fun seen p w ↦ ?_
  cases p with
  | publish m =>
    simp only [onPacket, printMessage, acknowledge_eq, wp_bind]
    have hlog : ∀ v : Net, v.log = (w.reply (ackFor m)).log ++ delivery showTopic (.publish m) →
        ∃ b a, (manner showTopic limit).before (.publish m) b ∧
          (manner showTopic limit).after (.publish m) a ∧
          v.log = w.log ++ (b ++ ((manner showTopic limit).reply (.publish m)).toList.map .sent
            ++ a) :=
      fun v hv ↦ ⟨[], _, rfl, rfl, by simpa [manner, replyTo] using hv⟩
    refine wp_sendReply _ ?_ ?_
    · simp only [wp_emit]
      split
      next hdone =>
        exact ⟨by simp, by simp, hlog _ (by simp [delivery]), by simp [manner, hdone]⟩
      next hagain =>
        exact ⟨by simp, by simp, hlog _ (by simp [delivery]), by simp [manner, hagain]⟩
    · intro r e hr hv
      exact Or.inr ⟨hv, ⟨e, rfl⟩, [], r, rfl, hr, rfl⟩
  | pubrel rel =>
    simp only [onPacket, wp_bind]
    refine wp_send _ ?_ ?_
    · exact ⟨rfl, rfl, ⟨[], [], rfl, rfl, rfl⟩, rfl⟩
    · exact fun e hv ↦ Or.inr ⟨hv, ⟨e, rfl⟩, [], _, rfl, rfl, rfl⟩
  | disconnect code => exact Or.inl ⟨_, rfl, rfl, rfl, rfl, rfl, rfl⟩
  | _ => exact ⟨rfl, rfl, ⟨[], [], rfl, rfl, by simp [manner, replyTo]⟩, rfl⟩

/-- The packets the receive loop of a run reads off the stimuli of the whole run. -/
def receivedLater (args : SubArgs) (xs : List Stimulus) : List Packet :=
  if args.effectiveLimit = some 0 then []
  else reads (manner args.showTopic args.effectiveLimit) 0
    (remaining (waitManner args.topic) () xs)

/-- A run, with what it does at each of its limits. -/
theorem run_eq (args : SubArgs) (h : args.topic ≠ []) :
    run args = (do
      subscribe args.topic args.qos
      if args.effectiveLimit = some 0 then disconnect
      else do
        receive args.showTopic args.effectiveLimit
        disconnect) := by
  have hempty : args.topic.isEmpty = false := by simpa using h
  rw [run, hempty]
  rfl

/-- **The log of a run that returned.** The SUBSCRIBE, the wait's transcript, the receive loop's,
and the DISCONNECT. -/
theorem log_of_run_ok {args : SubArgs} {w w' : Net} (h : run args w = .ok () w') :
    ∃ t u, Transcript (waitManner args.topic) t ∧
      Transcript (manner args.showTopic args.effectiveLimit) u ∧
      receivedPackets u = receivedLater args w.inbox ∧
      w'.log = w.log ++ (.sent (.subscribe (subscribePacket (succPacketId w.store.nextPacketId)
        args.topic args.qos)) :: t ++ (u ++ [.sent (.disconnect .success)])) := by
  have htopic : args.topic ≠ [] := by
    intro hnil
    rw [run, hnil] at h
    cases h
  have hwp : wp (run args) (fun _ w' ↦ ∃ t u, Transcript (waitManner args.topic) t ∧
      Transcript (manner args.showTopic args.effectiveLimit) u ∧
      receivedPackets u = receivedLater args w.inbox ∧
      w'.log = w.log ++ (.sent (.subscribe (subscribePacket (succPacketId w.store.nextPacketId)
        args.topic args.qos)) :: t ++ (u ++ [.sent (.disconnect .success)])))
      (fun _ _ ↦ True) w := by
    rw [run_eq args htopic, wp_bind]
    refine wp_subscribe _ _ ?_ (fun _ _ _ ↦ trivial) (fun _ _ _ _ _ ↦ trivial)
    rintro v ⟨-, t, ht, hv, -⟩ - hinbox
    split
    next hlimit =>
      refine wp_send _ ⟨t, [], ht, .nil, ?_, ?_⟩ fun _ _ ↦ trivial
      · rw [receivedLater, if_pos hlimit]
        rfl
      · simp [hv, subscribed]
    next hlimit =>
      have hloop := follows_receive args.showTopic args.effectiveLimit
      refine (wp_receive_disconnect hloop 0 v).mono ?_ fun _ _ _ ↦ trivial
      rintro - w' ⟨-, u, hu, hreads, hc⟩
      refine ⟨t, u, ht, hu, ?_, ?_⟩
      · rw [receivedLater, if_neg hlimit, hreads, hinbox]
      · simp [hc.log, hv, subscribed]
  exact hwp.of_ok h

end Subscribe

end PulsemqCli
