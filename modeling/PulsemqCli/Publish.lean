import PulsemqCli.Client

/-!
# `pub`: publish, complete the handshake, exit

`publishOne` publishes one message and, at QoS 1 and 2, reads acknowledgements until its handshake
is over; `run` does so once, or once per line of standard input, and then disconnects.

The specification lemmas say what a call does to the inbound stream. `awaitAck` is the code's own
choice of the next acknowledgement: it passes over PINGRESP, and anything else that is not an
acknowledgement ends the call. `wp_expectAck` and `wp_publishOne` reduce the two functions to it.

A call of `publish_one` is over when its handshake is: the connection has no other exchange open,
and does not read while it writes. What arrives between two calls is read by the next one.
-/

namespace PulsemqCli

namespace Publish

open Reactive Protocol Client

/-- One message to publish: the arguments of `publish_one`. -/
structure Message where
  topic : String
  payload : List UInt8
  qos : QoS
  retain : Bool
  properties : Properties
  deriving DecidableEq, Repr

/-- The PUBLISH a message becomes. -/
def Message.toPublish (m : Message) (packetId : Option PacketId) : Protocol.Publish where
  dup := false
  qos := m.qos
  retain := m.retain
  topic := m.topic
  packetId := packetId
  properties := m.properties
  payload := m.payload

/-- Where the payloads come from. -/
inductive PayloadSource where
  /-- One payload, one PUBLISH. -/
  | once (payload : List UInt8)
  /-- One PUBLISH per line: what `stdin().lock().lines()` yields. -/
  | lines (lines : List (Except String (List UInt8)))

/-- The arguments of `pub` that are left once the connection is up. -/
structure PubArgs where
  topic : String
  source : PayloadSource
  qos : QoS
  retain : Bool
  properties : Properties

/-- The message that carries one payload. -/
def PubArgs.message (args : PubArgs) (payload : List UInt8) : Message where
  topic := args.topic
  payload := payload
  qos := args.qos
  retain := args.retain
  properties := args.properties

/-- The messages of a run: one, or one for every line that can be read. -/
def PubArgs.messages (args : PubArgs) : List Message :=
  match args.source with
  | .once payload => [args.message payload]
  | .lines lines => lines.filterMap fun line ↦ line.toOption.map args.message

/-! ### The command -/

/-- Read until the next acknowledgement packet, and return its Reason Code. -/
def expectAck (what : String) : Command ReasonCode :=
  react (fun s ↦ recv (fun
    | .puback a | .pubrec a | .pubcomp a => return .inr a.reasonCode
    | .pingresp => return .inl ()
    | .disconnect code => fail (.rejected what code)
    | other => fail (.mqtt (.protocol "expected an acknowledgement" other))) s) ()

/-- Turn an error Reason Code into a failure. -/
def check (code : ReasonCode) (what : String) : Command Unit :=
  if code.isError then fail (.rejected what code) else return ()

/-- Publish one message and, for QoS 1 and 2, complete its handshake before returning. -/
def publishOne (m : Message) : Command Unit := do
  let packetId ← match m.qos with
    | .atMostOnce => pure none
    | _ => some <$> nextPacketId
  send (.publish (m.toPublish packetId))
  match m.qos with
  | .atMostOnce => return ()
  | .atLeastOnce => do
    let ack ← expectAck "publish"
    check ack "publish"
  | .exactlyOnce => do
    let received ← expectAck "publish"
    check received "publish"
    -- `expect`: QoS 2 always allocates an identifier, so the default is never taken.
    let id := packetId.getD 0
    send (.pubrel ⟨id, .success⟩)
    let comp ← expectAck "publish"
    check comp "publish"

/-- Publish a sequence of messages over the one connection, ending at the first failure. -/
def publishAll : List Message → Command Unit
  | [] => return ()
  | m :: rest => do
    publishOne m
    publishAll rest

/-- The loop over the lines of standard input: a line that cannot be read ends the run. -/
def publishLines (args : PubArgs) : List (Except String (List UInt8)) → Command Unit
  | [] => return ()
  | .error e :: _ => fail (.usage ("reading stdin: " ++ e))
  | .ok line :: rest => do
    publishOne (args.message line)
    publishLines args rest

/-- `publish::run`, from the connection on. -/
def run (args : PubArgs) : Command Unit := do
  match args.source with
  | .once payload => publishOne (args.message payload)
  | .lines lines => publishLines args lines
  disconnect

/-! ### The next acknowledgement of an inbound stream -/

/-- The acknowledgement a packet is, if it is one. -/
def ackOf : Packet → Option PubAck
  | .puback a | .pubrec a | .pubcomp a => some a
  | _ => none

/-- The acknowledgement the client reads next from an inbound stream, with what is left after it:
PINGRESP and the stimuli the client does not listen to are passed over, and nothing is found past
any other packet. -/
def awaitAck : List Stimulus → Option (Packet × List Stimulus)
  | [] => none
  | .packet p :: rest =>
    match ackOf p with
    | some _ => some (p, rest)
    | none => if p = .pingresp then awaitAck rest else none
  | .idle :: rest | .stop :: rest => awaitAck rest
  | .eof :: _ | .readError _ :: _ => none

@[simp]
theorem awaitAck_pingresp (rest : List Stimulus) :
    awaitAck (.packet .pingresp :: rest) = awaitAck rest := by
  simp [awaitAck, ackOf]

/-! ### Specifications -/

/-- Nothing but PINGRESP was read. -/
def OnlyPings (events : List Event) : Prop :=
  ∀ e ∈ events, e = .received .pingresp

/-- What `expectAck` leaves behind when it read the acknowledgement `p`. -/
structure AckRead (w w' : Net) (p : Packet) (rest : List Stimulus) : Prop where
  next : awaitAck w.inbox = some (p, rest)
  inbox : w'.inbox = rest
  store : w'.store = w.store
  log : ∃ skipped, OnlyPings skipped ∧ w'.log = w.log ++ skipped ++ [.received p]

/-- `expectAck` returns the Reason Code of the next acknowledgement of the inbound stream, and
does not return when there is none. -/
theorem wp_expectAck (what : String) (w : Net) :
    wp (expectAck what)
      (fun code w' ↦ ∃ p a rest, ackOf p = some a ∧ code = a.reasonCode ∧ AckRead w w' p rest)
      (fun _ _ ↦ awaitAck w.inbox = none) w := by
  refine wp_react (fun xs _ v ↦ awaitAck w.inbox = awaitAck xs ∧ v.store = w.store ∧
    ∃ skipped, OnlyPings skipped ∧ v.log = w.log ++ skipped) ?_ ?_
    ⟨rfl, rfl, [], by simp [OnlyPings], by simp⟩
  · rintro s v ⟨hnext, -, -⟩
    exact hnext
  · rintro x rest s v ⟨hnext, hstore, skipped, hpings, hlog⟩
    cases x with
    | packet p =>
      rw [wp_recv_packet]
      -- The acknowledgements return, PINGRESP goes round, and everything else fails.
      cases p with
      | puback a | pubrec a | pubcomp a =>
        exact ⟨_, a, rest, rfl, rfl, hnext, rfl, hstore, skipped, hpings,
          by simp [hlog, Net.read]⟩
      | pingresp =>
        refine ⟨by simpa using hnext, hstore, skipped ++ [.received .pingresp], ?_,
          by simp [hlog, Net.read]⟩
        intro e he
        rcases List.mem_append.1 he with he | he
        · exact hpings e he
        · simpa using he
      | _ => exact hnext
    | idle => exact ⟨hnext, hstore, skipped, hpings, hlog⟩
    | stop => exact ⟨hnext, hstore, skipped, hpings, hlog⟩
    | eof => exact hnext
    | readError e => exact hnext

/-- The weakest precondition of a check of a reason code. -/
theorem wp_check {code : ReasonCode} {what : String} {Q : Unit → Net → Prop}
    {E : Stop Error → Net → Prop} {w : Net} (success : code.isError = false → Q () w)
    (refused : code.isError = true → E (.failed (.rejected what code)) w) :
    wp (check code what) Q E w := by
  unfold check
  rcases h : code.isError with - | -
  · exact success h
  · exact refused h

/-- The inbound stream's next acknowledgement exists and carries no error code. -/
def AckArrives (xs : List Stimulus) : Prop :=
  ∃ p a rest, awaitAck xs = some (p, rest) ∧ ackOf p = some a ∧ a.reasonCode.isError = false

/-- `expect_ack(..)` followed by `check(..)`: past the pair, the next acknowledgement of the
inbound stream was read and carried no error code; and the pair fails only when there is no such
acknowledgement. -/
theorem wp_expectAck_check {what : String} {w : Net} {Q : Unit → Net → Prop}
    {E : Stop Error → Net → Prop}
    (success : ∀ p a rest w', ackOf p = some a → a.reasonCode.isError = false →
      AckRead w w' p rest → Q () w')
    (failure : ¬AckArrives w.inbox → ∀ e w', E e w') :
    wp (expectAck what) (fun code ↦ wp (check code what) Q E) E w := by
  refine (wp_expectAck what w).mono ?_ ?_
  · rintro code w' ⟨p, a, rest, hack, rfl, hread⟩
    refine wp_check (fun hok ↦ success p a rest w' hack hok hread) fun herr ↦ failure ?_ _ _
    rintro ⟨q, b, rest', hnext, hb, hok⟩
    obtain ⟨rfl, -⟩ : p = q ∧ rest = rest' := by simpa [hread.next] using hnext
    obtain rfl : a = b := by simpa [hack] using hb
    simp [herr] at hok
  · intro e w' hnone
    refine failure ?_ e w'
    rintro ⟨q, b, rest', hnext, -, -⟩
    simp [hnone] at hnext

/-- The identifier a call at QoS 1 or 2 allocates. -/
abbrev callId (w : Net) : PacketId :=
  succPacketId w.store.nextPacketId

/-- The world in which a call's PUBLISH has just been written. -/
def published (m : Message) (w : Net) : Net :=
  match m.qos with
  | .atMostOnce => w.wrote (.publish (m.toPublish none))
  | _ => (allocated w).wrote (.publish (m.toPublish (some (callId w))))

/-- What a call leaves behind when it returns: the acknowledgements its QoS waits for were read
off the inbound stream one after the other, none of them carried an error code, and at QoS 2 a
PUBREL went out between the two. Nothing is said of their types or identifiers, because the code
looks at neither. -/
def Completed (m : Message) (w w' : Net) : Prop :=
  match m.qos with
  | .atMostOnce => w' = published m w
  | .atLeastOnce => ∃ p a rest, ackOf p = some a ∧ a.reasonCode.isError = false ∧
      AckRead (published m w) w' p rest
  | .exactlyOnce => ∃ v p a rest, ackOf p = some a ∧ a.reasonCode.isError = false ∧
      AckRead (published m w) v p rest ∧
      ∃ q b rest', ackOf q = some b ∧ b.reasonCode.isError = false ∧
        AckRead (v.wrote (.pubrel ⟨callId w, .success⟩)) w' q rest'

/-- The inbound stream holds the acknowledgements a call waits for, without an error code. -/
def HandshakeArrives (qos : QoS) (xs : List Stimulus) : Prop :=
  match qos with
  | .atMostOnce => True
  | .atLeastOnce => AckArrives xs
  | .exactlyOnce => ∃ p a rest, awaitAck xs = some (p, rest) ∧ ackOf p = some a ∧
      a.reasonCode.isError = false ∧ AckArrives rest

@[simp] theorem published_inbox (m : Message) (w : Net) : (published m w).inbox = w.inbox := by
  unfold published
  split <;> rfl

@[simp] theorem published_fault (m : Message) (w : Net) :
    (published m w).store.fault = w.store.fault := by
  unfold published
  split <;> rfl

/-- **Specification of `publishOne`.** A call returns only with its handshake read off the inbound
stream; and where writes succeed it fails only when that handshake does not arrive. -/
theorem wp_publishOne (m : Message) (w : Net) :
    wp (publishOne m) (fun _ w' ↦ Completed m w w')
      (fun _ _ ↦ w.AcceptsWrites → ¬HandshakeArrives m.qos w.inbox) w := by
  have hfault : ∀ {v : Net}, ¬v.AcceptsWrites → v.store.fault = w.store.fault →
      w.AcceptsWrites → ¬HandshakeArrives m.qos w.inbox :=
    fun hv hf hw ↦ absurd (fun n ↦ by rw [hf]; exact hw n) hv
  unfold publishOne
  cases hqos : m.qos with
  | atMostOnce =>
    simp only [wp_bind, wp_pure]
    refine wp_send _ ?_ fun _ hv ↦ hqos ▸ hfault hv rfl
    simp [Completed, published, hqos]
  | atLeastOnce =>
    have hpub : published m w = (allocated w).wrote
        (.publish (m.toPublish (some (callId w)))) := by
      simp [published, hqos]
    simp only [wp_bind, wp_map, wp_nextPacketId]
    refine wp_send _ ?_ fun _ hv ↦ hqos ▸ hfault hv rfl
    rw [← hpub]
    refine wp_expectAck_check ?_ ?_
    · intro p a rest w' hack hok hread
      simpa only [Completed, hqos] using ⟨p, a, rest, hack, hok, hread⟩
    · intro hno _ _ _ harr
      rw [published_inbox] at hno
      exact hno harr
  | exactlyOnce =>
    have hpub : published m w = (allocated w).wrote
        (.publish (m.toPublish (some (callId w)))) := by
      simp [published, hqos]
    simp only [wp_bind, wp_map, wp_nextPacketId]
    refine wp_send _ ?_ fun _ hv ↦ hqos ▸ hfault hv rfl
    rw [← hpub]
    refine wp_expectAck_check ?_ ?_
    · intro p a rest v hack hok hread
      refine wp_send _ ?_ fun _ hv ↦ hqos ▸ hfault hv ?_
      · refine wp_expectAck_check ?_ ?_
        · intro q b rest' w' hack' hok' hread'
          simpa only [Completed, hqos] using
            ⟨v, p, a, rest, hack, hok, hread, q, b, rest', hack', hok', hread'⟩
        · intro hno _ _ _ harr
          obtain ⟨p', -, rest₀, hnext, -, -, harr⟩ := harr
          refine hno ?_
          have hrest : rest = rest₀ := by
            have := hread.next
            rw [published_inbox, hnext] at this
            simpa using (congrArg (Option.map Prod.snd) this).symm
          rw [Net.wrote_inbox, hread.inbox, hrest]
          exact harr
      · rw [hread.store, published_fault]
    · intro hno _ _ _ harr
      obtain ⟨p', a', rest', hnext, hack', hok', -⟩ := harr
      exact hno ⟨p', a', rest', by rw [published_inbox]; exact hnext, hack', hok'⟩

end Publish

end PulsemqCli
