import Mathlib.Data.List.Basic

/-!
# Control packets and errors

The part of the wire protocol's vocabulary that the commands read and write: reason codes, the
packets that carry data a command looks at, and the error type of the client tools.

The codec itself lives in another crate. Here a packet is the value the codec hands over, and a
packet whose contents no command reads has no contents here either.

What is kept of a packet is what a command reads or writes of it: identifiers, reason codes, topics,
payloads, and of the properties those that are shown with `--show-topic`. Errors keep what their
text is made of, so that two errors are equal here only if the user is told the same.

Strings from the wire are `String`s, as the codec hands them over; payloads are lists of bytes. A
packet identifier is 16 bits wide and may be 0 as far as its type is concerned: that none is
allocated as 0 is shown, and that none is received as 0 is never assumed.
-/

namespace PulsemqCli

namespace Protocol

/-- Packet Identifiers are 16 bits wide. -/
abbrev PacketId := UInt16

/-- The delivery guarantees. -/
inductive QoS where
  | atMostOnce
  | atLeastOnce
  | exactlyOnce
  deriving DecidableEq, Repr

/-- A Reason Code, by its byte. -/
structure ReasonCode where
  asU8 : UInt8
  deriving DecidableEq, Repr

namespace ReasonCode

/-- `ReasonCode::Success`. -/
def success : ReasonCode := ⟨0x00⟩

/-- `ReasonCode::NotAuthorized`. -/
def notAuthorized : ReasonCode := ⟨0x87⟩

/-- A Reason Code of `0x80` or above is an error. -/
def isError (c : ReasonCode) : Bool :=
  0x80 ≤ c.asU8

@[simp] theorem isError_success : success.isError = false := rfl

@[simp] theorem isError_notAuthorized : notAuthorized.isError = true := rfl

end ReasonCode

/-- What PUBACK, PUBREC, PUBREL and PUBCOMP carry. -/
structure PubAck where
  packetId : PacketId
  reasonCode : ReasonCode
  deriving DecidableEq, Repr

/-- The v5 properties the commands set or print. -/
structure Properties where
  contentType : Option String := none
  messageExpiryInterval : Option UInt32 := none
  payloadFormatIndicator : Option UInt8 := none
  userProperties : List (String × String) := []
  responseTopic : Option String := none
  deriving DecidableEq, Repr

structure Publish where
  dup : Bool
  qos : QoS
  retain : Bool
  topic : String
  packetId : Option PacketId
  properties : Properties
  payload : List UInt8
  deriving DecidableEq, Repr

inductive RetainHandling where
  | sendAtSubscribe
  | sendAtSubscribeIfNew
  | dontSend
  deriving DecidableEq, Repr

structure TopicFilter where
  filter : String
  qos : QoS
  noLocal : Bool
  retainAsPublished : Bool
  retainHandling : RetainHandling
  deriving DecidableEq, Repr

structure Subscribe where
  packetId : PacketId
  properties : Properties
  filters : List TopicFilter
  deriving DecidableEq, Repr

structure SubAck where
  packetId : PacketId
  reasonCodes : List ReasonCode
  deriving DecidableEq, Repr

/-- The fifteen control packets. -/
inductive Packet where
  | connect
  | connack
  | publish (p : Publish)
  | puback (a : PubAck)
  | pubrec (a : PubAck)
  | pubrel (a : PubAck)
  | pubcomp (a : PubAck)
  | subscribe (s : Subscribe)
  | suback (a : SubAck)
  | unsubscribe
  | unsuback
  | pingreq
  | pingresp
  | disconnect (reasonCode : ReasonCode)
  | auth
  deriving DecidableEq, Repr

/-- The protocol versions the client speaks. -/
inductive ProtocolVersion where
  | v3_1
  | v3_1_1
  | v5
  deriving DecidableEq, Repr

/-- Only v5 has properties. -/
def ProtocolVersion.hasProperties : ProtocolVersion → Bool
  | .v5 => true
  | _ => false

/-- What the codec and the transport fail with. A protocol error keeps the packet its message
names. -/
inductive MqttError where
  | io
  | malformed
  | protocol (expected : String) (got : Packet)
  deriving DecidableEq, Repr

end Protocol

open Protocol

/-- The error type of the client tools. -/
inductive Error where
  /-- Bad or contradictory command-line arguments. -/
  | usage (message : String)
  /-- The broker answered with a non-success Reason Code. -/
  | rejected (what : String) (code : ReasonCode)
  /-- The broker closed the connection where a reply was expected. -/
  | disconnected (when : String)
  /-- The requested feature does not exist in the negotiated protocol version. -/
  | unsupported (message : String)
  /-- Transport or codec failure. -/
  | mqtt (error : MqttError)
  deriving DecidableEq, Repr

end PulsemqCli
