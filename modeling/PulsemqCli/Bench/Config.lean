import PulsemqCli.Protocol
import PulsemqCli.Bench.Payload
import PulsemqCli.Library.Clock

/-!
# The resolved configuration of a benchmark run

`Config`, how it is made from the arguments, and the derived quantities the tasks read from it: how
the messages are split across publishers, how large a publisher's window is, and whether a run
measures end-to-end latency. Times are in nanoseconds.

The checks of `from_args` are made in the order of the source, so that of two errors the first one
is reported. A run ends by its count, by its duration, or by whichever comes first. The rate is in
double precision, as the parser leaves it; infinities and NaNs are refused here.
-/

namespace PulsemqCli

namespace Bench

open Protocol Clock FloatingPoint

/-- What ends the run. -/
inductive Stop where
  /-- Send exactly this many messages, however long it takes. -/
  | count (n : ℕ)
  /-- Send for this long, however many that turns out to be. -/
  | duration (d : ℕ)
  /-- Send this many, giving up if the duration expires first. -/
  | countWithin (n d : ℕ)
  deriving DecidableEq, Repr

/-- The resolved run configuration. -/
structure Config where
  publishers : ℕ
  subscribers : ℕ
  topicPrefix : String
  qos : QoS
  payloadSize : ℕ
  stop : Stop
  /-- The offered rate, in messages per second. -/
  rate : Option F64
  inflight : ℕ
  warmup : ℕ
  drain : ℕ
  deriving DecidableEq

/-- The arguments of `bench` that are not the connection's. The parser takes `--qos` from 0 to 2
only. -/
structure BenchArgs where
  publishers : UInt64
  subscribers : UInt64
  topicPrefix : String
  qos : QoS
  payloadSize : UInt64
  count : Option UInt64
  duration : Option UInt64
  rate : Option F64
  inflight : UInt64
  warmup : UInt64
  drain : UInt64

/-- The largest offered rate accepted by `--rate`. -/
def maxRate : F64 :=
  .ofNat 10000000

/-- Messages to send when neither `--count` nor `--duration` is given. -/
def defaultCount : ℕ :=
  10000

namespace Config

/-- The checks of `--rate`. Errors quote numbers as `display` writes them. -/
def checkRate (display : F64 → String) (rate : F64) (publishers : UInt64) : Except Error Unit :=
  if !rate.isFinite || rate.le (.ofNat 0) || maxRate.lt rate then
    .error (.usage ("--rate must be a finite number greater than 0 and at most " ++
      display maxRate ++ ", got " ++ display rate))
  else
    let perPublisherRate := rate.div (.ofNat publishers.toNat)
    let periodSecs := Value.div (.ofNat 1) perPublisherRate
    if !periodSecs.isFinite || (asSecsF64 maxDuration).lt periodSecs then
      .error (.usage ("--rate " ++ display rate ++ " split across " ++ toString publishers ++
        " publisher(s) is too small: the resulting period does not fit"))
    else .ok ()

def fromArgs (display : F64 → String) (args : BenchArgs) : Except Error Config := do
  if args.publishers = 0 then
    throw (.usage "--publishers must be at least 1")
  match args.rate with
  | some rate => checkRate display rate args.publishers
  | none => pure ()
  let stop := match args.count, args.duration with
    | some count, some secs => .countWithin count.toNat (fromSecs secs.toNat)
    | some count, none => .count count.toNat
    | none, some secs => .duration (fromSecs secs.toNat)
    | none, none => .count defaultCount
  return {
    publishers := args.publishers.toNat
    subscribers := args.subscribers.toNat
    topicPrefix := args.topicPrefix
    qos := args.qos
    payloadSize := args.payloadSize.toNat
    stop := stop
    rate := args.rate
    inflight := args.inflight.toNat
    warmup := fromSecs args.warmup.toNat
    drain := fromSecs args.drain.toNat }

variable (config : Config)

/-- End-to-end latency needs the measurement header to fit in the payload. -/
def measuresEndToEnd : Bool :=
  0 < config.subscribers && Payload.headerLen ≤ config.payloadSize

/-- The offered load is stated for the run; each publisher takes a share. -/
def perPublisherRate : Option F64 :=
  config.rate.map fun rate ↦ .div rate (.ofNat config.publishers)

def topicFor (publisher : ℕ) : String :=
  config.topicPrefix ++ "/" ++ toString publisher

def subscribeFilter : String :=
  config.topicPrefix ++ "/#"

/-- Messages this publisher is responsible for, when the run is count-limited. The remainder goes
to the first publishers. -/
def quotaFor (publisher : ℕ) : Option ℕ :=
  match config.stop with
  | .count total | .countWithin total _ =>
    some (total / config.publishers + if publisher < total % config.publishers then 1 else 0)
  | .duration _ => none

/-- The wall-clock limit on the sending phase, if any. -/
def deadline : Option ℕ :=
  match config.stop with
  | .duration d | .countWithin _ d => some d
  | .count _ => none

end Config

/-- The window a publisher may keep in flight: what was asked for, capped by what the broker said
it will accept in CONNACK, and never zero. -/
def effectiveInflight (requested : ℕ) (brokerReceiveMaximum : Option UInt16) : ℕ :=
  max (match brokerReceiveMaximum with
    | some cap => min requested cap.toNat
    | none => requested) 1

/-- A window is never zero: a zero-permit window would deadlock the publisher. -/
theorem effectiveInflight_pos (requested : ℕ) (brokerReceiveMaximum : Option UInt16) :
    0 < effectiveInflight requested brokerReceiveMaximum :=
  lt_of_lt_of_le Nat.one_pos (le_max_right _ _)

end Bench

end PulsemqCli
