import PulsemqCli.Protocol
import Mathlib.Data.List.DropRight

/-!
# The connection's arguments

`ConnectionArgs` as the parser hands it over: the combinations that the parser rejects cannot be
built. What the arguments stand for depends on what surrounds the process: an environment variable
and the files that they name.

`--tls` and `--websocket` and what goes with them exist in a build with the Cargo feature of the
same name, and neither feature is on by default. The flags of a build without them are those that
are not given; and where the code itself depends on a feature, so do the definitions here.

Fields that are parsed into something else are kept in the form in which the code reads them; what
is only shown in a help text has no place here. `readPassword` and the checks on the password file
are pure functions of the environment, since nothing in the program writes a file.
-/

namespace PulsemqCli

namespace Cli

open Protocol

abbrev Path := String

/-- What the process finds around it. -/
structure Environment where
  /-- `WISPMQ_PASSWORD`. -/
  passwordVar : Option (List UInt8)
  /-- `std::fs::read`. -/
  read : Path → Except String (List UInt8)
  /-- The permission bits of a file, where there is one. -/
  mode : Path → Option ℕ

/-- The protocol's own ceiling on a packet: a Remaining Length is four bytes, of seven bits each. -/
def protocolMaxPacketSize : UInt32 := 268435455

/-- The Cargo features that a build is made with. -/
structure Features where
  tls : Bool
  websocket : Bool
  deriving DecidableEq, Repr

/-- How to reach the broker. -/
structure ConnectionArgs where
  /-- The features of the build that the arguments are given to. -/
  features : Features
  broker : String
  portArg : Option UInt16
  clientId : Option String
  protocol : ProtocolVersion
  user : Option String
  password : Option String
  passwordFile : Option Path
  keepalive : UInt16
  maxPacketSize : UInt32
  persistentSession : Bool
  tls : Bool
  cafile : Option Path
  cert : Option Path
  key : Option Path
  insecure : Bool
  websocket : Bool
  willTopic : Option String
  willPayload : Option String
  willQos : QoS
  willRetain : Bool
  tls_requires : tls = true → features.tls = true
  websocket_requires : websocket = true → features.websocket = true
  password_conflicts : password = none ∨ passwordFile = none
  persistentSession_requires : persistentSession = true → clientId.isSome = true
  cafile_requires : cafile.isSome = true → tls = true
  cert_requires : cert.isSome = true → tls = true ∧ key.isSome = true
  key_requires : key.isSome = true → tls = true ∧ cert.isSome = true
  insecure_requires : insecure = true → tls = true
  will_requires : willTopic = none →
    willPayload = none ∧ willQos = .atMostOnce ∧ willRetain = false

/-- A Will Message. -/
structure Will where
  qos : QoS
  retain : Bool
  topic : String
  payload : List UInt8
  deriving DecidableEq, Repr

/-- What is written to stderr before a connection is up. -/
inductive Warning where
  | readableByOthers (path : Path) (mode : ℕ)
  | plaintextPassword
  | insecure
  | nativeCertificate (error : String)
  deriving DecidableEq, Repr

/-- A number in octal, with four digits at least. -/
def octal (n : ℕ) : String :=
  String.ofList ((Nat.toDigits 8 n).leftpad 4 '0')

def Warning.text : Warning → String
  | .readableByOthers path mode => "wispmq-cli: warning: " ++ path ++
      " is readable by others (mode " ++ octal mode ++ "); consider chmod 600"
  | .plaintextPassword => "wispmq-cli: warning: sending a password without --tls; " ++
      "it crosses the network in the clear"
  | .insecure =>
      "wispmq-cli: warning: --insecure disables TLS server certificate verification"
  | .nativeCertificate error =>
      "wispmq-cli: warning: reading a native root certificate: " ++ error

def isNewline (b : UInt8) : Bool :=
  b = 0x0A || b = 0x0D

namespace ConnectionArgs

variable (args : ConnectionArgs)

def cleanStart : Bool :=
  !args.persistentSession

def port : UInt16 :=
  args.portArg.getD (if args.tls then 8883 else 1883)

/-- `max_packet_size`: the ceiling on a packet, validated. -/
def checkedMaxPacketSize : Except String UInt32 :=
  if args.maxPacketSize = 0 then .error "--max-packet-size must be at least 1"
  else if protocolMaxPacketSize < args.maxPacketSize then
    .error ("--max-packet-size " ++ toString args.maxPacketSize ++
      " exceeds the protocol maximum " ++ toString protocolMaxPacketSize)
  else .ok args.maxPacketSize

/-- `password`: from the file, the flag or the environment, in this order. -/
def readPassword (env : Environment) : Except String (Option (List UInt8)) :=
  match args.passwordFile with
  | some path => do
    let bytes ← env.read path
    return some (bytes.rdropWhile isNewline)
  | none =>
    match args.password with
    | some password => .ok (some password.toUTF8.toList)
    | none => .ok env.passwordVar

/-- `warn_if_readable_by_others`, which `password` calls for its file. -/
def warnIfReadableByOthers (env : Environment) : Option Warning := do
  let path ← args.passwordFile
  let mode ← env.mode path
  if mode &&& 0o077 ≠ 0 then some (.readableByOthers path (mode &&& 0o7777)) else none

def will : Option Will := do
  let topic ← args.willTopic
  return {
    qos := args.willQos
    retain := args.willRetain
    topic := topic
    payload := (args.willPayload.getD "").toUTF8.toList }

/-- Whether there is a password, without reading it. -/
def hasPasswordSource (env : Environment) : Bool :=
  args.passwordFile.isSome || args.password.isSome || env.passwordVar.isSome

/-- `warn_if_plaintext_password`. A build without the feature `tls` has neither this nor its
call. -/
def warnIfPlaintextPassword (env : Environment) : Option Warning :=
  if args.features.tls && args.hasPasswordSource env && !args.tls then some .plaintextPassword
  else none

/-- A ceiling that is accepted is one that the protocol allows. -/
theorem checkedMaxPacketSize_eq_ok {n : UInt32} (h : args.checkedMaxPacketSize = .ok n) :
    n = args.maxPacketSize ∧ n ≠ 0 ∧ n ≤ protocolMaxPacketSize := by
  unfold checkedMaxPacketSize at h
  split at h
  next => cases h
  next hzero =>
    split at h
    next => cases h
    next hle =>
      cases h
      exact ⟨rfl, hzero, UInt32.not_lt.1 hle⟩

/-- A password that is read has a source. -/
theorem hasPasswordSource_of_readPassword {env : Environment} {password : List UInt8}
    (h : args.readPassword env = .ok (some password)) : args.hasPasswordSource env = true := by
  unfold readPassword at h
  unfold hasPasswordSource
  cases hfile : args.passwordFile with
  | some path => rfl
  | none =>
    cases hflag : args.password with
    | some flag => rfl
    | none =>
      rw [hfile, hflag] at h
      rw [Except.ok.inj h]
      rfl

end ConnectionArgs

end Cli

end PulsemqCli
