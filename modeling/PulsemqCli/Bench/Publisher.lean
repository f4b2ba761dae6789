import PulsemqCli.Bench.Config
import PulsemqCli.Client
import PulsemqCli.Library.Transition
import Mathlib.Data.Finmap

/-!
# One publishing connection of a benchmark

`run` is two tasks. The write side paces the sends, holds the in-flight window and writes; the ack
side reads the broker's packets and matches acknowledgements. They share the window's semaphore,
the map of the packets in flight and the counters, and the ack side hands the identifiers of
successful PUBRECs over a channel, for only the write side may write a PUBREL.

A state holds both tasks and what they share, and `step` makes one step of one of them, or of their
surroundings: time passes, the broker sends something, a write fails, the run is stopped. Every
`await` is a phase of its own, so that the two sides can interleave there. Times are in
nanoseconds.

Nothing has to happen: a step that is enabled may be put off for any time, also one that writes to
the socket. A broker that has stopped reading is one whose publisher makes no such step any more.

`run` is the body of a task, and can leave it by a panic, too: while it makes its schedule, computes
a deadline, or builds a payload. That is no step of the two sides but `panic`, which a whole run of
the benchmark makes of the task.
-/

namespace PulsemqCli

namespace Bench

namespace Publisher

open Protocol

/-- What a publisher is given, and what its broker's CONNACK says. -/
structure Setting where
  index : UInt32
  config : Config
  receiveMaximum : Option UInt16
  baseline : ℕ
  warmupUntil : ℕ
  /-- `schedule.deadline`: when a message is due, unless the run is not throttled. -/
  deadline : ℕ → Option ℕ

namespace Setting

variable (c : Setting)

/-- The window. Packet Identifiers are 16 bits wide, so it is no wider than their range. -/
def window : ℕ :=
  min (effectiveInflight c.config.inflight c.receiveMaximum) 65535

/-- How many messages this publisher sends, when the run is count-limited. -/
def quota : Option ℕ :=
  c.config.quotaFor c.index.toNat

/-- QoS 0 has neither acknowledgements nor a window. -/
def acknowledged : Bool :=
  c.config.qos ≠ .atMostOnce

theorem window_pos : 0 < c.window := by
  have hpos := effectiveInflight_pos c.config.inflight c.receiveMaximum
  unfold window
  omega

end Setting

/-- What the ack side reads. -/
inductive Inbound where
  | packet (p : Packet)
  | eof
  | error (e : MqttError)
  deriving DecidableEq, Repr

/-- Where `drain_pubrels` is called: at the top of the send loop, while the write side waits for
the window to drain, and last before the DISCONNECT. -/
inductive Drain where
  | top
  | waiting (deadline : ℕ)
  | last
  deriving DecidableEq, Repr

/-- Why a run returned `Err`. -/
inductive Failure where
  /-- A write failed. -/
  | mqtt (e : MqttError)
  /-- "the broker's reply stream failed". -/
  | replyStream (e : MqttError)
  /-- "the broker closed the connection after `sent` message(s), before acknowledging the
  rest". -/
  | connectionClosed (sent : ℕ)
  /-- "acknowledgement task did not finish within the drain window". -/
  | unfinished
  /-- It did not return: its task panicked, which shows as this `JoinError`. -/
  | panicked (e : String)
  deriving DecidableEq, Repr

/-- What the write side is at. -/
inductive Phase where
  /-- In `drain_pubrels`, before its `try_recv`. -/
  | draining (d : Drain)
  /-- Writing a PUBREL. -/
  | releasing (d : Drain) (id : PacketId)
  | checkingQuota
  | checkingStop
  /-- Waiting until the message is due. -/
  | pacing
  /-- Waiting for a permit. -/
  | acquiring
  | permitted
  /-- The message has its identifier and its send time, and is not in flight yet. -/
  | assigned (p : Publish) (now : ℕ)
  | writing (p : Publish)
  /-- The message is written but not counted. -/
  | written (p : Publish)
  | failing (p : Publish) (e : MqttError)
  /-- After the loop, before the check whether the window has drained. -/
  | waiting (deadline : ℕ)
  | napping (deadline wake : ℕ)
  | disconnecting
  | joining (deadline : ℕ)
  | returned (r : Except Failure (List ℕ))
  deriving DecidableEq

/-- What the ack side is at. -/
inductive AckPhase where
  | reading
  /-- In `complete_ack`, before the identifier is taken out of the map. -/
  | completing (id : PacketId) (code : ReasonCode)
  /-- In `complete_ack`, with the send time it took out of the map. -/
  | freeing (sentAt : ℕ) (code : ReasonCode)
  /-- Out of its loop, before it closes the semaphore. -/
  | closing (error : Option MqttError)
  | finished (error : Option MqttError)
  | aborted
  deriving DecidableEq, Repr

/-- The state of both sides. -/
structure State where
  clock : ℕ
  stop : Bool
  /-- The stop signal's sender was dropped. -/
  stopDropped : Bool
  permits : ℕ
  /-- The semaphore is closed. -/
  closed : Bool
  /-- Send times by identifier. -/
  inFlight : Finmap fun _ : PacketId ↦ ℕ
  /-- The channel from the ack side. -/
  pubrels : List PacketId
  sent : ℕ
  nextPacketId : PacketId
  windowClosed : Bool
  phase : Phase
  ack : AckPhase
  samples : List ℕ
  /-- What the broker sent and the ack side did not read yet. -/
  inbound : List Inbound
  /-- Everything the write side wrote. -/
  written : List Packet
  published : ℕ
  bytesSent : ℕ
  acknowledged : ℕ
  publishErrors : ℕ
  /-- The Reason Codes of the refusals, in order; the report tallies them. -/
  refused : List ReasonCode

/-- The state in which the send loop begins. -/
def initial (c : Setting) (clock : ℕ) : State where
  clock := clock
  stop := false
  stopDropped := false
  permits := c.window
  closed := false
  inFlight := ∅
  pubrels := []
  sent := 0
  nextPacketId := 0
  windowClosed := false
  phase := .draining .top
  ack := .reading
  samples := []
  inbound := []
  written := []
  published := 0
  bytesSent := 0
  acknowledged := 0
  publishErrors := 0
  refused := []

/-! ### The write side

One `await` of the source is one phase, and a step goes from one to the next. Between two of them
the other side can do anything; what the source does without an `await` is one step. -/

/-- How long the write side waits for outstanding acknowledgements, at most. -/
def drainTime : ℕ := 5 * 10 ^ 9

/-- How long it sleeps between two looks. -/
def napTime : ℕ := 10 ^ 7

/-- The identifier after `id`. -/
def nextId (id : PacketId) : PacketId :=
  if id + 1 = 0 then 1 else id + 1

theorem nextId_eq : nextId = Client.succPacketId :=
  rfl

/-- The message the write side sends next. -/
def message (c : Setting) (s : State) (id : Option PacketId) : Publish where
  dup := false
  qos := c.config.qos
  retain := false
  topic := c.config.topicFor c.index.toNat
  packetId := id
  properties := {}
  payload := Payload.build c.config.payloadSize {
    elapsedNs := .ofNat (s.clock - c.baseline)
    publisher := c.index
    seq := .ofNat s.sent }

/-- The send loop is left: the wait for outstanding acknowledgements is skipped if the window
closed. -/
def leave (s : State) : State :=
  { s with phase := if s.windowClosed then .disconnecting else .waiting (s.clock + drainTime) }

/-- What follows a call of `drain_pubrels`. -/
def drained (s : State) : Drain → State
  | .top => { s with phase := .checkingQuota }
  | .waiting deadline => { s with phase := .napping deadline (s.clock + napTime) }
  | .last => { s with phase := .disconnecting }

/-- The DISCONNECT was written, or not, and the ack side is joined. -/
def join (c : Setting) (s : State) : State :=
  { s with phase := .joining (s.clock + max c.config.drain drainTime) }

/-- What `run` returns once the ack side is joined. A read error outranks everything else. -/
def result (s : State) : Option MqttError → Except Failure (List ℕ)
  | some e => .error (.replyStream e)
  | none => if s.windowClosed then .error (.connectionClosed s.sent) else .ok s.samples

/-- The write side's next step, where its writes succeed; `none` where it waits. -/
def advance (c : Setting) (s : State) : Option State :=
  match s.phase with
  | .draining d =>
    match s.pubrels with
    | id :: rest => some { s with pubrels := rest, phase := .releasing d id }
    | [] => some (drained s d)
  | .releasing d id =>
    some { s with written := s.written ++ [.pubrel ⟨id, .success⟩], phase := .draining d }
  | .checkingQuota =>
    if c.quota.any (· ≤ s.sent) then some (leave s) else some { s with phase := .checkingStop }
  | .checkingStop => if s.stop then some (leave s) else some { s with phase := .pacing }
  | .pacing =>
    if (c.deadline s.sent).all (· ≤ s.clock) then some { s with phase := .acquiring } else none
  | .acquiring =>
    if !c.acknowledged then some { s with phase := .permitted }
    else if s.closed then some (leave { s with windowClosed := true })
    else if s.permits = 0 then none
    else some { s with permits := s.permits - 1, phase := .permitted }
  | .permitted =>
    if c.acknowledged then
      let id := nextId s.nextPacketId
      some { s with nextPacketId := id, phase := .assigned (message c s (some id)) s.clock }
    else some { s with phase := .writing (message c s none) }
  | .assigned p now =>
    match p.packetId with
    | some id => some { s with inFlight := s.inFlight.insert id now, phase := .writing p }
    | none => some { s with phase := .writing p }
  | .writing p => some { s with written := s.written ++ [.publish p], phase := .written p }
  -- The permit is forgotten: the ack side releases it when the acknowledgement lands.
  | .written p => some { s with
      published := s.published + 1
      bytesSent := s.bytesSent + p.payload.length
      sent := s.sent + 1
      phase := .draining .top }
  -- The permit was not forgotten, and is released as it drops.
  | .failing p e => some { s with
      inFlight := p.packetId.elim s.inFlight s.inFlight.erase
      permits := if c.acknowledged then s.permits + 1 else s.permits
      phase := .returned (.error (.mqtt e)) }
  | .waiting deadline =>
    if s.inFlight = ∅ ∨ deadline ≤ s.clock then some { s with phase := .draining .last }
    else some { s with phase := .draining (.waiting deadline) }
  | .napping deadline wake =>
    if wake ≤ s.clock then some { s with phase := .waiting deadline } else none
  | .disconnecting =>
    some (join c { s with written := s.written ++ [.disconnect .success] })
  | .joining _ =>
    match s.ack with
    | .finished error => some { s with phase := .returned (result s error) }
    | _ => none
  | .returned _ => none

/-- The write side's step where its write fails. Failures after the send loop are ignored. -/
def fail (c : Setting) (e : MqttError) (s : State) : Option State :=
  match s.phase with
  | .releasing .top _ => some { s with phase := .returned (.error (.mqtt e)) }
  | .releasing d _ => some (drained s d)
  | .writing p => some { s with publishErrors := s.publishErrors + 1, phase := .failing p e }
  | .disconnecting => some (join c s)
  | _ => none

/-- The write side takes the stop arm of a `select!`. -/
def halt (c : Setting) (s : State) : Option State :=
  if s.stop || s.stopDropped then
    match s.phase with
    | .pacing => if (c.deadline s.sent).isSome then some (leave s) else none
    | .acquiring => if c.acknowledged then some (leave s) else none
    | _ => none
  else none

/-- The write side panics: in `Schedule::new`, before it does anything else, in
`schedule.deadline`, or in `payload::build`. Whether it does there is up to the arguments. What it
holds is dropped: a permit is released, and the handle of the ack side, which goes on alone. -/
def panic (c : Setting) (e : String) (s : State) : Option State :=
  match s.phase with
  | .draining .top =>
    if s.written.isEmpty then some { s with phase := .returned (.error (.panicked e)) } else none
  | .pacing => some { s with phase := .returned (.error (.panicked e)) }
  | .permitted => some { s with
      permits := if c.acknowledged then s.permits + 1 else s.permits
      phase := .returned (.error (.panicked e)) }
  | _ => none

/-! ### The ack side

It has one loop, whose phases are those of one acknowledgement: read, look the identifier up,
release the permit. The mutex of the map is held for the lookup alone. -/

/-- `sent.elapsed().as_nanos() as u64`. -/
def elapsed (s : State) (sentAt : ℕ) : ℕ :=
  (s.clock - sentAt) % 2 ^ 64

/-- `complete_ack` is called. -/
def completeAck (s : State) (id : PacketId) (code : ReasonCode) : State :=
  { s with
    refused := if code.isError then s.refused ++ [code] else s.refused
    ack := .completing id code }

/-- What the ack side does with a packet. -/
def onPacket (s : State) : Packet → State
  | .puback a | .pubcomp a => completeAck s a.packetId a.reasonCode
  | .pubrec a =>
    if a.reasonCode.isError then completeAck s a.packetId a.reasonCode
    else { s with pubrels := s.pubrels ++ [a.packetId] }
  | _ => s

/-- The ack side's next step; `none` where it waits for the broker. -/
def acknowledge (c : Setting) (s : State) : Option State :=
  match s.ack with
  | .reading =>
    match s.inbound with
    | [] => none
    | .packet p :: rest => some (onPacket { s with inbound := rest } p)
    | .eof :: rest => some { s with inbound := rest, ack := .closing none }
    | .error e :: rest => some { s with inbound := rest, ack := .closing (some e) }
  | .completing id code =>
    match s.inFlight.lookup id with
    | some sentAt => some { s with inFlight := s.inFlight.erase id, ack := .freeing sentAt code }
    | none => some { s with ack := .reading }
  | .freeing sentAt code =>
    if code.isError then some { s with permits := s.permits + 1, ack := .reading }
    else some { s with
      permits := s.permits + 1
      acknowledged := s.acknowledged + 1
      samples := if c.warmupUntil ≤ sentAt then s.samples ++ [elapsed s sentAt] else s.samples
      ack := .reading }
  | .closing error => some { s with closed := true, ack := .finished error }
  | .finished _ | .aborted => none

/-! ### The steps of both -/

/-- Who makes a step, and how. -/
inductive Act where
  | tick (nanos : ℕ)
  | deliver (x : Inbound)
  | raiseStop
  | dropStop
  | advance
  | fail (e : MqttError)
  | halt
  | acknowledge
  /-- The join of the ack side times out. -/
  | timeout

/-- The join of the ack side times out, and the ack side is aborted. A finished task is joined
first. -/
def timeout (s : State) : Option State :=
  match s.phase, s.ack with
  | .joining _, .finished _ => none
  | .joining deadline, _ =>
    if deadline ≤ s.clock then
      some { s with ack := .aborted, phase := .returned (.error .unfinished) }
    else none
  | _, _ => none

/-- One step. -/
def step (c : Setting) (s : State) : Act → Option State
  | .tick nanos => some { s with clock := s.clock + nanos }
  | .deliver x => some { s with inbound := s.inbound ++ [x] }
  | .raiseStop => some { s with stop := true }
  | .dropStop => some { s with stopDropped := true }
  | .advance => advance c s
  | .fail e => fail c e s
  | .halt => halt c s
  | .acknowledge => acknowledge c s
  | .timeout => timeout s

/-- A step by anyone. -/
def Step (c : Setting) (s s' : State) : Prop :=
  ∃ a, step c s a = some s'

end Publisher

end Bench

end PulsemqCli
