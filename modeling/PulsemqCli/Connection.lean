import PulsemqCli.Transport.Tls
import PulsemqCli.Library.Transition

/-!
# How a connection comes up

`Client::connect` validates its arguments, `transport::connect` dials and wraps the stream as the
flags say, and `handshake` exchanges CONNECT and CONNACK. A connection of a benchmark begins at
`transport::connect`. `step` takes a connection from one `await` to the next.

A process has any number of connections, with the same arguments, and they interleave. What they
share is the two warnings that are given once per process.

An `Effect` is what can be seen of a connection from outside: that it warns, dials, secures,
upgrades, sends. The error it fails with is its last phase. What the network does is an act, and so
is the broker's answer; what the connection does by itself is `proceed`. The source awaits in the
same places, and between two of them a connection can be overtaken by another.

The process-wide warnings are guarded by a `Once` each, which is the only state that connections
share. Arguments, environment and files are the same for all connections and do not change; a file
that is rewritten while the process runs is not modelled. Passwords are looked at in
`Connection.Password` and `Connection.Redaction`, the order of what is done in `Connection.Route`.
-/

namespace PulsemqCli

namespace Connection

open Protocol Cli Transport.Tls Transition

/-- The contents of a CONNECT. The name of the protocol follows from its version. -/
structure Connect where
  version : ProtocolVersion
  cleanStart : Bool
  keepAlive : UInt16
  /-- The ceiling that the broker is told; the codec drops it where the version has no
  properties. -/
  maximumPacketSize : UInt32
  clientId : String
  will : Option Will
  username : Option String
  password : Option (List UInt8)
  deriving DecidableEq, Repr

/-- v3.1 uses "MQIsdp"; v3.1.1 and v5.0 use "MQTT". -/
def Connect.protocolName (c : Connect) : String :=
  match c.version with
  | .v3_1 => "MQIsdp"
  | _ => "MQTT"

/-- The contents of a CONNACK that the client looks at. -/
structure Connack where
  sessionPresent : Bool
  reasonCode : ReasonCode
  receiveMaximum : Option UInt16
  deriving DecidableEq, Repr

/-- What `read_packet` yields during the handshake. -/
inductive Answer where
  | connack (ack : Connack)
  /-- A packet that is no CONNACK. -/
  | other (p : Packet)
  | eof
  deriving DecidableEq, Repr

/-- What the broker granted. -/
structure Negotiated where
  version : ProtocolVersion
  receiveMaximum : Option UInt16
  sessionPresent : Bool
  deriving DecidableEq, Repr

/-- What a connection does that can be seen from outside. -/
inductive Effect where
  | warn (w : Warning)
  /-- A TCP connection is asked for. -/
  | dial (host : String) (port : UInt16)
  /-- A TLS handshake is begun. -/
  | secure (name : String) (config : ClientConfig)
  /-- The Upgrade request is written. -/
  | upgrade (uri : String)
  /-- The CONNECT was written. -/
  | connect (c : Connect)
  deriving DecidableEq, Repr

/-- What a connection is at. -/
inductive Phase where
  /-- In `Client::connect`, before `transport::connect`. -/
  | validating
  /-- In `transport::connect`, before it warns and dials. -/
  | starting
  | dialling
  /-- Before TLS is set up. -/
  | securing
  | shakingHands
  /-- Before the Upgrade request is built. -/
  | upgrading
  | awaitingUpgrade
  /-- In `handshake`, before the CONNECT is made. -/
  | greeting
  | sending (c : Connect)
  | awaiting
  | connected (n : Negotiated)
  | failed (e : Error)
  deriving DecidableEq

/-- Which of the warnings that are given once per process were given. -/
structure Warned where
  readableByOthers : Bool
  plaintextPassword : Bool
  deriving DecidableEq, Repr

/-- How a connection goes on: by itself or as an operation it awaits succeeds, with the failure of
that operation, or with the broker's answer to the CONNECT. -/
inductive Act where
  | proceed
  | fail (e : MqttError) (text : String)
  | answer (r : Except MqttError Answer)

/-- `Once::call_once`, with what it says when it is called for the first time. -/
def callOnce (called : Bool) (w : Option Warning) : Bool × List Effect :=
  match w with
  | none => (called, [])
  | some w => (true, if called then [] else [.warn w])

/-- What a connection is given. -/
structure Setting where
  lib : Libraries
  env : Environment
  args : ConnectionArgs
  clientId : String

namespace Setting

variable (c : Setting)

/-- `ConnectionArgs::password`, with the warning that goes with it. -/
def password (w : Warned) : Warned × List Effect × Except String (Option (List UInt8)) :=
  let (called, effects) := callOnce w.readableByOthers (c.args.warnIfReadableByOthers c.env)
  ({ w with readableByOthers := called }, effects, c.args.readPassword c.env)

/-- The CONNECT. -/
def connect (maxPacketSize : UInt32) (password : Option (List UInt8)) : Connect where
  version := c.args.protocol
  cleanStart := c.args.cleanStart
  keepAlive := c.args.keepalive
  maximumPacketSize := maxPacketSize
  clientId := c.clientId
  will := c.args.will
  username := c.args.user
  password := password

def uri : String :=
  "ws://" ++ c.args.broker ++ ":" ++ toString c.args.port ++ "/mqtt"

end Setting

/-- Where a stream that is dialled goes on, and one that is secured. -/
def afterDial (args : ConnectionArgs) : Phase :=
  if args.tls then .securing else if args.websocket then .upgrading else .greeting

def afterTls (args : ConnectionArgs) : Phase :=
  if args.websocket then .upgrading else .greeting

/-- What the answer to the CONNECT comes to. -/
def answered (version : ProtocolVersion) : Except MqttError Answer → Phase
  | .error e => .failed (.mqtt e)
  | .ok (.connack ack) =>
    if ack.reasonCode = .success then
      .connected ⟨version, ack.receiveMaximum, ack.sessionPresent⟩
    else .failed (.rejected "connection" ack.reasonCode)
  | .ok (.other p) => .failed (.mqtt (.protocol "expected CONNACK" p))
  | .ok .eof => .failed (.disconnected "during the handshake")

/-- The validation in `Client::connect`. -/
def validate (c : Setting) (w : Warned) : Warned × List Effect × Phase :=
  if !c.args.cleanStart && c.clientId.isEmpty then
    (w, [], .failed (.usage ("--persistent-session needs a non-empty --client-id: a " ++
      "broker-assigned identifier cannot be resumed")))
  else
    match c.args.checkedMaxPacketSize with
    | .error e => (w, [], .failed (.usage e))
    | .ok _ =>
      let (w, effects, password) := c.password w
      match password with
      | .error e => (w, effects, .failed (.usage ("cannot read the password file: " ++ e)))
      | .ok _ => (w, effects, .starting)

/-- `transport::connect`, up to its `TcpStream::connect`. -/
def start (c : Setting) (w : Warned) : Warned × List Effect × Phase :=
  let (called, effects) := callOnce w.plaintextPassword (c.args.warnIfPlaintextPassword c.env)
  ({ w with plaintextPassword := called }, effects ++ [.dial c.args.broker c.args.port], .dialling)

/-- `handshake`, up to its CONNECT. -/
def greet (c : Setting) (w : Warned) : Warned × List Effect × Phase :=
  match c.args.checkedMaxPacketSize with
  | .error e => (w, [], .failed (.usage e))
  | .ok maxPacketSize =>
    let (w, effects, password) := c.password w
    match password with
    | .error e => (w, effects, .failed (.usage ("cannot read the password file: " ++ e)))
    | .ok password => (w, effects, .sending (c.connect maxPacketSize password))

/-- `tls::wrap`, up to the TLS handshake. -/
def secure (c : Setting) : List Effect × Phase :=
  let (warnings, config) := buildConfig c.lib c.env c.args
  match config with
  | .error e => (warnings.map .warn, .failed e)
  | .ok config =>
    match c.lib.serverName c.args.broker with
    | .error e => (warnings.map .warn, .failed (.usage ("--broker " ++
        c.lib.debug c.args.broker ++ " is not a valid TLS server name: " ++ e)))
    | .ok () => (warnings.map .warn ++ [.secure c.args.broker config], .shakingHands)

/-- `ws::wrap`, up to the Upgrade. -/
def upgrade (c : Setting) : List Effect × Phase :=
  match c.lib.uri c.uri with
  | .error e => ([], .failed (.usage ("--broker " ++ c.lib.debug c.args.broker ++ ": " ++ e)))
  | .ok () =>
    match c.lib.upgradeRequest c.uri "mqtt" with
    | .error e => ([], .failed (.usage ("building the WebSocket Upgrade request: " ++ e)))
    | .ok () => ([.upgrade c.uri], .awaitingUpgrade)

/-- One step of a connection. -/
def step (c : Setting) (w : Warned) : Phase → Act → Option (Warned × List Effect × Phase)
  | .validating, .proceed => some (validate c w)
  | .starting, .proceed => some (start c w)
  | .dialling, .proceed => some (w, [], afterDial c.args)
  | .dialling, .fail _ _ => some (w, [], .failed (.mqtt .io))
  | .securing, .proceed => some (w, secure c)
  | .shakingHands, .proceed => some (w, [], afterTls c.args)
  | .shakingHands, .fail _ _ => some (w, [], .failed (.mqtt .io))
  | .upgrading, .proceed => some (w, upgrade c)
  | .awaitingUpgrade, .proceed => some (w, [], .greeting)
  | .awaitingUpgrade, .fail _ text =>
    some (w, [], .failed (.usage ("WebSocket Upgrade failed: " ++ text)))
  | .greeting, .proceed => some (greet c w)
  | .sending p, .proceed => some (w, [.connect p], .awaiting)
  | .sending _, .fail e _ => some (w, [], .failed (.mqtt e))
  | .awaiting, .answer r => some (w, [], answered c.args.protocol r)
  | _, _ => none

/-! ### A process and its connections

The log is one for all connections, in the order of what they did; `trace` is what one of them did.
-/

/-- The connections of a process. -/
structure Process (ι : Type) where
  lib : Libraries
  env : Environment
  args : ConnectionArgs
  /-- The client identifiers. -/
  clientId : ι → String

variable {ι : Type}

def Process.setting (r : Process ι) (i : ι) : Setting where
  lib := r.lib
  env := r.env
  args := r.args
  clientId := r.clientId i

structure State (ι : Type) where
  warned : Warned
  phase : ι → Phase
  /-- What each connection did, in the order in which it happened. -/
  log : List (ι × Effect)

/-- No connection has begun. A benchmark's does not validate before it dials. -/
def initial (bench : Bool) : State ι where
  warned := ⟨false, false⟩
  phase := fun _ ↦ if bench then .starting else .validating
  log := []

section Run

variable [DecidableEq ι] (r : Process ι)

/-- A step of one connection. -/
def run (s : State ι) (i : ι) (a : Act) : Option (State ι) := do
  let (w, effects, phase) ← step (r.setting i) s.warned (s.phase i) a
  return {
    warned := w
    phase := Function.update s.phase i phase
    log := s.log ++ effects.map (i, ·) }

/-- A step of any connection. -/
def Step (s s' : State ι) : Prop :=
  ∃ i a, run r s i a = some s'

/-- A step is an act of one connection, and what it does is logged under its name. -/
theorem exists_of_step {s s' : State ι} (h : Step r s s') : ∃ i a w effects phase,
    step (r.setting i) s.warned (s.phase i) a = some (w, effects, phase) ∧
      s' = ⟨w, Function.update s.phase i phase, s.log ++ effects.map (i, ·)⟩ := by
  obtain ⟨i, a, ha⟩ := h
  obtain ⟨⟨w, effects, phase⟩, hstep, hs⟩ := Option.bind_eq_some_iff.1 ha
  exact ⟨i, a, w, effects, phase, hstep, (Option.some.inj hs).symm⟩

/-- What one connection did. -/
def trace (log : List (ι × Effect)) (i : ι) : List Effect :=
  log.filterMap fun x ↦ if x.1 = i then some x.2 else none

theorem trace_append (log log' : List (ι × Effect)) (i : ι) :
    trace (log ++ log') i = trace log i ++ trace log' i :=
  List.filterMap_append

theorem trace_map_self (effects : List Effect) (i : ι) :
    trace (effects.map (i, ·)) i = effects := by
  rw [trace, List.filterMap_map]
  simp

theorem trace_map_of_ne (effects : List Effect) {i j : ι} (h : i ≠ j) :
    trace (effects.map (i, ·)) j = [] := by
  rw [trace, List.filterMap_map]
  simp [h]

/-- **A connection by itself.** What each step of a connection preserves, whatever the warnings
given so far, holds of all connections of a process. -/
theorem always_each {I : Setting → Phase → List Effect → Prop} {bench : Bool}
    (init : ∀ c, I c (if bench then .starting else .validating) [])
    (preserved : ∀ {c w phase a w' effects phase' t},
      step c w phase a = some (w', effects, phase') → I c phase t → I c phase' (t ++ effects)) :
    Always (Step r) (initial bench) fun s ↦ ∀ i, I (r.setting i) (s.phase i) (trace s.log i) := by
  refine always_of_invariant (fun i ↦ init (r.setting i)) fun s s' h hs j ↦ ?_
  obtain ⟨i, a, w, effects, phase, hstep, rfl⟩ := exists_of_step r hs
  simp only [trace_append]
  by_cases hij : i = j
  · subst hij
    rw [Function.update_self, trace_map_self]
    exact preserved hstep (h i)
  · rw [Function.update_of_ne (Ne.symm hij), trace_map_of_ne _ hij, List.append_nil]
    exact h j

end Run

end Connection

end PulsemqCli
