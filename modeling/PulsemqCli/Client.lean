import PulsemqCli.Library.Reactive
import PulsemqCli.Protocol
import Mathlib.Logic.Function.Iterate

/-!
# The connection shared by the commands

`Client` after its handshake: what it can write, what it can read, and how it allocates packet
identifiers. A command is a reactive process over the connection. At every point where it waits,
the stimuli are what can happen next: a packet, the end of the stream, a read error, the
keep-alive interval running out, or the stop signal of a benchmark run. A waiting point ignores
the stimuli it does not listen to.

Writes can fail: the session says which of the connection's writes do, and a failed write ends
the command through the `?` every write carries.

Every read, write and print is recorded in the log of a session, in the order in which they happen.
What a command does is stated about this log, so that no lemma speaks of the state a command had in
between. A write that failed is in the log too, as `unsent`: the socket may have taken some of its
bytes, but the broker has no packet of it.

The session keeps the two variables of the source's `Client` that survive from one call to the next,
the identifier given out last and the keep-alive interval. The buffers of the connection are the
matter of `Wire`, where the reads are taken apart into what arrives on the socket; here a read
delivers a whole packet.

The world after each operation has a name (`wrote`, `unwrote`, `read`, `print`, `allocated`), with
simp lemmas for the fields it changes and those it keeps. `wp_send` and its companions are stated
with these names, and they are all that the commands' specifications use.
-/

namespace PulsemqCli

open Reactive Protocol

/-- What can happen next at a point where a command waits. -/
inductive Stimulus where
  /-- `read_packet` yields a packet. -/
  | packet (p : Packet)
  /-- `read_packet` yields `ReadOutcome::Eof`. -/
  | eof
  /-- `read_packet` fails. -/
  | readError (e : MqttError)
  /-- The keep-alive interval elapses first. -/
  | idle
  /-- The stop signal is raised, or its sender dropped. -/
  | stop
  deriving DecidableEq, Repr

/-- What a command does that can be observed from outside, in order. -/
inductive Event where
  | received (p : Packet)
  | sent (p : Packet)
  /-- A write that failed. -/
  | unsent (p : Packet)
  /-- `print_message` wrote this message to stdout, with or without its topic. -/
  | printed (p : Publish) (showTopic : Bool)
  /-- `seen` went up by one. -/
  | advanced
  /-- `received` went up by one and `bytes_received` by this many bytes. -/
  | counted (bytes : Nat)
  /-- A latency sample was recorded. -/
  | sampled (nanos : Nat)
  deriving DecidableEq, Repr

/-- The connection's state: `Client`'s own fields, and the environment's verdict on each write. -/
structure Session where
  /-- `keep_alive`, in seconds. -/
  keepAlive : UInt16
  /-- `next_packet_id`: the identifier allocated last. -/
  nextPacketId : PacketId
  /-- How many writes were attempted. -/
  writes : Nat
  /-- Which writes fail, and with what. -/
  fault : Nat → Option MqttError

/-- The world a command runs in. -/
abbrev Net := World Stimulus Event Session

/-- A command's process. -/
abbrev Command (α : Type) := Proc Stimulus Event Session Error α

/-- The world right after CONNACK: nothing written or read since. -/
def Net.connected (keepAlive : UInt16) (fault : Nat → Option MqttError) (inbox : List Stimulus) :
    Net where
  inbox := inbox
  log := []
  store := { keepAlive, nextPacketId := 0, writes := 0, fault }

/-- Every write the connection is still asked for succeeds. -/
def Net.AcceptsWrites (w : Net) : Prop :=
  ∀ n, w.store.fault n = none

/-- The same world with other writes failing. -/
def Net.withFault (w : Net) (fault : Nat → Option MqttError) : Net :=
  { w with store := { w.store with fault } }

/-- What a process adds to the log. -/
def afterwards {α : Type} (m : Command α) (w : Net) : List Event :=
  (Outcome.world (m w)).log.drop w.log.length

/-- What a command adds to the log, read off the log it ends with. -/
theorem afterwards_of_log {α : Type} {m : Command α} {w : Net} {t : List Event}
    (h : (Outcome.world (m w)).log = w.log ++ t) : afterwards m w = t := by
  rw [afterwards, h, List.drop_left]

namespace Client

/-- `Client::send`, which is `write_packet` on the client's own stream. -/
def send (p : Packet) : Command Unit := do
  let c ← load
  save { c with writes := c.writes + 1 }
  match c.fault c.writes with
  | none => emit (.sent p)
  | some e => do
    emit (.unsent p)
    fail (.mqtt e)

/-- Write a reply, where there is one to write. -/
def sendReply (reply : Option Packet) : Command Unit :=
  match reply with
  | some p => send p
  | none => return ()

/-- One stimulus at a `client.recv().await?` inside a loop with variables `s`, where `k` is what
the loop does with the packet. -/
def recv {σ α : Type} (k : Packet → Command (σ ⊕ α)) (s : σ) : Stimulus → Command (σ ⊕ α)
  | .packet p => do
    emit (.received p)
    k p
  | .eof => fail (.disconnected "while waiting for a reply")
  | .readError e => fail (.mqtt e)
  | .idle | .stop => return .inl s

/-- One stimulus at a `client.recv_keepalive().await?` inside a loop: as `recv`, but the interval
running out sends a PINGREQ, unless the keep-alive is off. -/
def recvKeepalive {σ α : Type} (k : Packet → Command (σ ⊕ α)) (s : σ) :
    Stimulus → Command (σ ⊕ α)
  | .idle => do
    if (← load).keepAlive ≠ 0 then
      send .pingreq
    return .inl s
  | x => recv k s x

/-- The identifier after `id`: Packet Identifiers are `1..=65535`, and 0 is reserved. -/
def succPacketId (id : PacketId) : PacketId :=
  let next := id + 1
  if next = 0 then 1 else next

/-- `Client::next_packet_id`. -/
def nextPacketId : Command PacketId := do
  let c ← load
  let id := succPacketId c.nextPacketId
  save { c with nextPacketId := id }
  return id

/-- `Client::disconnect`. -/
def disconnect : Command Unit :=
  send (.disconnect .success)

end Client

/-! ### What a write does to the world

Each of these has its simp lemmas right below. A command's specification speaks of worlds in these
terms, and of no other. -/

namespace Net

/-- The world after `p` was written. -/
def wrote (w : Net) (p : Packet) : Net :=
  { w with
    log := w.log ++ [.sent p]
    store := { w.store with writes := w.store.writes + 1 } }

/-- The world after writing `p` failed. -/
def unwrote (w : Net) (p : Packet) : Net :=
  { w with
    log := w.log ++ [.unsent p]
    store := { w.store with writes := w.store.writes + 1 } }

/-- The world after `p` was read. -/
def read (w : Net) (p : Packet) : Net :=
  { w with log := w.log ++ [.received p] }

/-- The world after `p` was printed. -/
def print (w : Net) (p : Publish) (showTopic : Bool) : Net :=
  { w with log := w.log ++ [.printed p showTopic] }

/-- The world after the reply that was due, if any, was written. -/
def reply (w : Net) (r : Option Packet) : Net :=
  r.elim w w.wrote

variable (w : Net) (p : Packet)

@[simp] theorem wrote_log : (w.wrote p).log = w.log ++ [.sent p] := rfl
@[simp] theorem wrote_inbox : (w.wrote p).inbox = w.inbox := rfl
@[simp] theorem wrote_nextPacketId : (w.wrote p).store.nextPacketId = w.store.nextPacketId := rfl
@[simp] theorem wrote_keepAlive : (w.wrote p).store.keepAlive = w.store.keepAlive := rfl
@[simp] theorem wrote_acceptsWrites : (w.wrote p).AcceptsWrites ↔ w.AcceptsWrites := Iff.rfl
@[simp] theorem unwrote_log : (w.unwrote p).log = w.log ++ [.unsent p] := rfl
@[simp] theorem unwrote_inbox : (w.unwrote p).inbox = w.inbox := rfl
@[simp] theorem read_log : (w.read p).log = w.log ++ [.received p] := rfl
@[simp] theorem read_inbox : (w.read p).inbox = w.inbox := rfl
@[simp] theorem read_store : (w.read p).store = w.store := rfl
@[simp] theorem read_acceptsWrites : (w.read p).AcceptsWrites ↔ w.AcceptsWrites := Iff.rfl

variable (r : Option Packet)

@[simp] theorem reply_none : w.reply none = w := rfl
@[simp] theorem reply_some : w.reply (some p) = w.wrote p := rfl

/-- The reply is in the log, where there is one. -/
@[simp]
theorem reply_log : (w.reply r).log = w.log ++ r.toList.map .sent := by
  cases r <;> simp

@[simp]
theorem reply_inbox : (w.reply r).inbox = w.inbox := by
  cases r <;> rfl

/-- Which writes fail is settled beforehand. -/
@[simp]
theorem reply_fault : (w.reply r).store.fault = w.store.fault := by
  cases r <;> rfl

variable (m : Publish) (showTopic : Bool)

@[simp] theorem print_log : (w.print m showTopic).log = w.log ++ [.printed m showTopic] := rfl
@[simp] theorem print_inbox : (w.print m showTopic).inbox = w.inbox := rfl
@[simp] theorem print_store : (w.print m showTopic).store = w.store := rfl
@[simp] theorem print_acceptsWrites :
    (w.print m showTopic).AcceptsWrites ↔ w.AcceptsWrites := Iff.rfl

end Net

namespace Client

variable {α σ : Type} {E : Stop Error → Net → Prop} {w : Net}

/-- What a write comes to. -/
theorem send_eq (p : Packet) (w : Net) :
    send p w = match w.store.fault w.store.writes with
      | none => .ok () (w.wrote p)
      | some e => .error (.failed (.mqtt e)) (w.unwrote p) := by
  show (match w.store.fault w.store.writes with
    | none => emit (.sent p)
    | some e => do
      emit (.unsent p)
      fail (.mqtt e) : Command Unit) _ = _
  cases w.store.fault w.store.writes <;> rfl

/-- The weakest precondition of a write: it is in the log as sent, or as unsent with the write's
error for a result. -/
theorem wp_send (p : Packet) {Q : Unit → Net → Prop} (sent : Q () (w.wrote p))
    (failed : ∀ e, ¬w.AcceptsWrites → E (.failed (.mqtt e)) (w.unwrote p)) :
    wp (send p) Q E w := by
  simp only [send, wp_bind, wp_load, wp_save]
  rcases h : w.store.fault w.store.writes with - | e
  · exact sent
  · exact failed e fun hw ↦ by simp [hw w.store.writes] at h

/-- The weakest precondition of a reply. -/
theorem wp_sendReply (r : Option Packet) {Q : Unit → Net → Prop} (replied : Q () (w.reply r))
    (failed : ∀ p e, r = some p → ¬w.AcceptsWrites → E (.failed (.mqtt e)) (w.unwrote p)) :
    wp (sendReply r) Q E w := by
  rcases r with - | p
  · exact replied
  · exact wp_send p replied fun e hv ↦ failed p e rfl hv

/-- The weakest precondition of a wait, where it is a packet that comes. -/
theorem wp_recv_packet {Q : σ ⊕ α → Net → Prop} (k : Packet → Command (σ ⊕ α)) (s : σ)
    (p : Packet) : wp (recv k s (.packet p)) Q E = fun w ↦ wp (k p) Q E (Net.read w p) := by
  simp only [recv, wp_bind, wp_emit]
  rfl

/-- The world after an identifier was allocated. -/
def allocated (w : Net) : Net :=
  { w with store := { w.store with nextPacketId := succPacketId w.store.nextPacketId } }

@[simp] theorem allocated_log : (allocated w).log = w.log := rfl
@[simp] theorem allocated_inbox : (allocated w).inbox = w.inbox := rfl
@[simp] theorem allocated_nextPacketId :
    (allocated w).store.nextPacketId = succPacketId w.store.nextPacketId := rfl
@[simp] theorem allocated_acceptsWrites : (allocated w).AcceptsWrites ↔ w.AcceptsWrites := Iff.rfl

/-- The weakest precondition of an allocation. -/
@[simp]
theorem wp_nextPacketId {Q : PacketId → Net → Prop} :
    wp nextPacketId Q E = fun w ↦ Q (succPacketId w.store.nextPacketId) (allocated w) :=
  rfl

/-! ### Packet identifiers -/

/-- `next_packet_id` as arithmetic: one further, and 1 after 65535. -/
theorem toNat_succPacketId (id : PacketId) :
    (succPacketId id).toNat = if id.toNat = 65535 then 1 else id.toNat + 1 := by
  have hlt : id.toNat < 65536 := id.toNat_lt
  have hadd : (id + 1).toNat = (id.toNat + 1) % 65536 := by simp [UInt16.toNat_add]
  unfold succPacketId
  by_cases h : id.toNat = 65535
  · have h0 : id + 1 = 0 := UInt16.toNat_inj.1 (by rw [hadd, h]; rfl)
    simp [h, h0]
  · have h0 : id + 1 ≠ 0 := by
      intro h0
      rw [h0] at hadd
      simp at hadd
      omega
    simp only [h0, if_false, h, hadd]
    omega

/-- From an identifier on, allocation goes round `1..=65535`. -/
theorem toNat_iterate_succPacketId {id : PacketId} (h : id ≠ 0) (k : ℕ) :
    (succPacketId^[k] id).toNat = (id.toNat - 1 + k) % 65535 + 1 := by
  have hpos : id.toNat ≠ 0 := fun h0 ↦ h (UInt16.toNat_inj.1 h0)
  have hlt : id.toNat < 65536 := id.toNat_lt
  induction k with
  | zero =>
    show id.toNat = (id.toNat - 1 + 0) % 65535 + 1
    omega
  | succ k ih =>
    rw [Function.iterate_succ_apply', toNat_succPacketId, ih]
    split <;> omega

/-- An identifier does not come back before the whole range was allocated. -/
theorem iterate_succPacketId_ne {id : PacketId} (h : id ≠ 0) {k : ℕ} (hk : 1 ≤ k)
    (hlt : k < 65535) : succPacketId^[k] id ≠ id := by
  intro heq
  have hnat := toNat_iterate_succPacketId h k
  have hpos : id.toNat ≠ 0 := fun h0 ↦ h (UInt16.toNat_inj.1 h0)
  have hid : id.toNat < 65536 := id.toNat_lt
  rw [heq] at hnat
  omega

/-- An allocated identifier is never the reserved 0. -/
theorem succPacketId_ne_zero (id : PacketId) : succPacketId id ≠ 0 := by
  intro h
  have := toNat_succPacketId id
  rw [h] at this
  split at this <;> simp at this

end Client

end PulsemqCli
