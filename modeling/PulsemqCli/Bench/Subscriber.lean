import PulsemqCli.Subscribe
import PulsemqCli.Bench.Config

/-!
# One subscribing connection of a benchmark

The task subscribes, waits for its SUBACK, and then acknowledges, counts and times what arrives
until the run's stop signal. It works on `read_packet` and `write_packet` directly, without the
client's keep-alive. Times are instants in nanoseconds.

After the end of the stream the source does not leave its loop: it waits for the stop signal, and
returns then what it has. The model first writes this as the source does, as a second wait inside of
the loop, and then as rounds of one loop over `Listening`. The second form is what the system takes
a task through, one stimulus at a time, and `receive_eq` says that they are the same program.

Instants are natural numbers of nanoseconds, and a checked addition fails beyond the range of the
clock, as it does in the source.
-/

namespace PulsemqCli

namespace Bench

namespace Subscriber

open Reactive Protocol Client Receive

/-- The instants a subscriber measures against. -/
structure Timing where
  baseline : ℕ
  warmupUntil : ℕ
  /-- What `Instant::now()` reads when the n-th PUBLISH is received. -/
  clock : ℕ → ℕ

/-- An `Instant` holds whole seconds as an `i64`; adding past its end is `None`. -/
def checkedAdd (instant nanos : ℕ) : Option ℕ :=
  if instant + nanos < 2 ^ 63 * 10 ^ 9 then some (instant + nanos) else none

/-- The latency sample a payload received at an instant gives. A payload without a header, or with
an implausible one, is counted but not timed. -/
def sampleOf (t : Timing) (receivedAt : ℕ) (payload : List UInt8) : Option ℕ :=
  match Payload.decode payload with
  | none => none
  | some header =>
    match checkedAdd t.baseline header.elapsedNs.toNat with
    | none => none
    | some sentAt =>
      if t.warmupUntil ≤ sentAt ∧ sentAt ≤ receivedAt then
        some ((receivedAt - sentAt) % 2 ^ 64)
      else none

/-- The variables of the receive loop. -/
structure Received where
  /-- How many PUBLISHes came in. -/
  messages : ℕ
  samples : List ℕ
  deriving DecidableEq, Repr

/-! ### The task -/

/-- The SUBSCRIBE of a subscriber. -/
def subscribePacket (config : Config) : Protocol.Subscribe where
  packetId := 1
  properties := {}
  filters := [{
    filter := config.subscribeFilter
    qos := config.qos
    noLocal := false
    retainAsPublished := false
    retainHandling := .sendAtSubscribe }]

/-- One stimulus while the task waits for the SUBACK. The stop signal is not listened to here, but
it stays raised: the loop's variable keeps it. -/
def awaitSubAck (index : ℕ) (stopped : Bool) : Stimulus → Command (Bool ⊕ Bool)
  | .packet p => do
    emit (.received p)
    match p with
    | .suback ack =>
      match ack.reasonCodes.find? ReasonCode.isError with
      | some code => fail (.rejected ("subscription for subscriber " ++ toString index) code)
      | none => return .inr stopped
    | _ => return .inl stopped
  | .eof => fail (.disconnected "while subscribing")
  | .readError e => fail (.mqtt e)
  | .stop => return .inl true
  | .idle => return .inl stopped

/-- Record a latency sample, where there is one. -/
def record (sample : Option ℕ) : Command Unit :=
  match sample with
  | some nanos => emit (.sampled nanos)
  | none => return ()

/-- What the receive loop does with a packet. -/
def onPacket (index : ℕ) (t : Timing) (s : Received) : Packet → Command (Received ⊕ List ℕ)
  | .publish p => do
    let sample := sampleOf t (t.clock s.messages) p.payload
    emit (.counted p.payload.length)
    record sample
    sendReply (Subscribe.ackFor p)
    return .inl ⟨s.messages + 1, s.samples ++ sample.toList⟩
  | .pubrel rel => do
    send (.pubcomp ⟨rel.packetId, .success⟩)
    return .inl s
  | .disconnect code => fail (.rejected ("subscriber " ++ toString index) code)
  | _ => return .inl s

/-- Wait for the stop signal. -/
def awaitStop : Command Unit :=
  react (fun _ x ↦ if x = .stop then return .inr () else return .inl ()) ()

/-- One stimulus in the receive loop. After the end of the stream nothing further can arrive, and
the task waits for the stop signal alone. -/
def listen (index : ℕ) (t : Timing) (s : Received) : Stimulus → Command (Received ⊕ List ℕ)
  | .packet p => do
    emit (.received p)
    onPacket index t s p
  | .stop => return .inr s.samples
  | .eof => do
    awaitStop
    return .inr s.samples
  | .readError e => fail (.mqtt e)
  | .idle => return .inl s

/-- The receive loop. -/
def receive (index : ℕ) (t : Timing) : Command (List ℕ) :=
  react (listen index t) ⟨0, []⟩

/-- `subscriber::run`, from the connection on; returns the end-to-end latency samples. -/
def run (index : ℕ) (config : Config) (t : Timing) : Command (List ℕ) := do
  send (.subscribe (subscribePacket config))
  let stopped ← react (awaitSubAck index) false
  if stopped then return []
  receive index t

/-! ### The receive loop in rounds -/

/-- What a benchmark's subscriber is at: reading, or waiting for the stop signal alone after the
end of the stream. -/
inductive Listening where
  | reading (s : Received)
  | closed (samples : List ℕ)

/-- The latency samples so far. -/
def Listening.samples : Listening → List ℕ
  | .reading s => s.samples
  | .closed samples => samples

/-- The receive loop of a benchmark's subscriber, with the wait after the end of the stream as
rounds of its own. -/
def listenOn (index : ℕ) (t : Timing) : Listening → Stimulus → Command (Listening ⊕ List ℕ)
  | .reading s, .eof => return .inl (.closed s.samples)
  | .reading s, x => do
    match ← listen index t s x with
    | .inl s' => return .inl (.reading s')
    | .inr samples => return .inr samples
  | .closed samples, x => if x = .stop then return .inr samples else return .inl (.closed samples)

/-- After the end of the stream everything but the stop signal is passed over. -/
theorem listenOn_closed (index : ℕ) (t : Timing) (samples : List ℕ) {x : Stimulus}
    (hx : x ≠ .stop) : listenOn index t (.closed samples) x = return .inl (.closed samples) := by
  rw [listenOn, if_neg hx]

/-- The wait for the stop signal is the loop's rounds after the end of the stream. -/
theorem awaitStop_eq (index : ℕ) (t : Timing) (samples : List ℕ) (xs : List Stimulus) (w : Net) :
    (do
      reactTo (fun _ x ↦ if x = .stop then return .inr () else return .inl ()) xs ()
      return samples : Command (List ℕ)) w =
      reactTo (listenOn index t) xs (.closed samples) w := by
  induction xs generalizing w with
  | nil => rfl
  | cons x rest ih =>
    by_cases hx : x = .stop
    · subst hx
      rfl
    · have hround := listenOn_closed index t samples hx
      have hwait : (if x = .stop then return .inr () else return .inl () : Command (Unit ⊕ Unit)) =
          return .inl () := if_neg hx
      simp only [reactTo, hround, hwait]
      exact ih _

/-- **The subscriber's loop, with the wait after the end of the stream as rounds of its own.** -/
theorem receive_eq (index : ℕ) (t : Timing) :
    receive index t = react (listenOn index t) (.reading ⟨0, []⟩) := by
  have hloop : ∀ (xs : List Stimulus) (s : Received) (w : Net),
      reactTo (listen index t) xs s w = reactTo (listenOn index t) xs (.reading s) w := by
    intro xs
    induction xs with
    | nil => exact fun _ _ ↦ rfl
    | cons x rest ih =>
      intro s w
      by_cases hx : x = .eof
      · subst hx
        refine Eq.trans ?_ (awaitStop_eq index t s.samples rest { w with inbox := rest })
        have hwait : awaitStop { w with inbox := rest } =
            reactTo (fun _ x ↦ if x = .stop then return .inr () else return .inl ()) rest ()
              { w with inbox := rest } := rfl
        rw [reactTo_cons, listen, bind_assoc, bind_eq, bind_eq, hwait]
        rcases reactTo _ rest () { w with inbox := rest } with ⟨_, w'⟩ | ⟨e, w'⟩ <;> rfl
      · have hround : listenOn index t (.reading s) x = (do
            match ← listen index t s x with
            | .inl s' => return .inl (.reading s')
            | .inr samples => return .inr samples) := by
          cases x with
          | eof => exact absurd rfl hx
          | _ => rfl
        rw [reactTo_cons, reactTo_cons, hround, bind_eq, bind_eq, bind_eq]
        rcases listen index t s x { w with inbox := rest } with ⟨s' | samples, w'⟩ | ⟨e, w'⟩
        · exact ih s' w'
        · rfl
        · rfl
  funext w
  exact hloop w.inbox _ w

/-! ### The manner of the receive loop -/

/-- What is done with a packet before it is replied to: a PUBLISH is counted, and timed if it
carries a header to time it by. -/
def Counts : Packet → List Event → Prop
  | .publish p, es => ∃ sample : Option ℕ,
      es = .counted p.payload.length :: sample.toList.map .sampled
  | _, es => es = []

theorem delivers_of_counts (p : Packet) (es : List Event) (h : Counts p es) :
    ∀ e ∈ es, Delivers e := by
  intro e he
  cases p with
  | publish m =>
    obtain ⟨sample, rfl⟩ := h
    rcases List.mem_cons.1 he with rfl | he
    · trivial
    · obtain ⟨n, -, rfl⟩ := List.mem_map.1 he
      trivial
  | _ =>
    rw [show es = [] from h] at he
    cases he

/-- Count and time, then reply; done at the stop signal. -/
def manner (index : ℕ) (t : Timing) : Manner Received where
  before := Counts
  reply := Subscribe.replyTo
  after _ es := es = []
  verdict s
    | .publish p =>
      .again ⟨s.messages + 1, s.samples ++ (sampleOf t (t.clock s.messages) p.payload).toList⟩
    | .disconnect code => .refused (.rejected ("subscriber " ++ toString index) code)
    | _ => .again s
  ending
    | .stop, _ => some (.ok ())
    | .eof, rest => some (if .stop ∈ rest then .ok () else .error .waiting)
    | .readError e, _ => some (.error (.failed (.mqtt e)))
    | _, _ => none
  before_delivers := delivers_of_counts
  after_delivers := delivers_of_eq_nil

theorem wp_record (sample : Option ℕ) {Q : Unit → Net → Prop}
    {E : Reactive.Stop Error → Net → Prop} :
    wp (record sample) Q E =
      fun w ↦ Q () { w with log := w.log ++ sample.toList.map .sampled } := by
  funext w
  rcases sample with - | n
  · simp [record]
  · rfl

/-- After the end of the stream the task returns if and only if the stop signal is still to come,
and does nothing else. -/
theorem wp_awaitStop {Q : Unit → Net → Prop} {E : Reactive.Stop Error → Net → Prop}
    {w : Net}
    (stopped : .stop ∈ w.inbox → ∀ w', w'.log = w.log → w'.store = w.store →
      w'.inbox <:+ w.inbox → Q () w')
    (waiting : .stop ∉ w.inbox → ∀ w', w'.log = w.log → E .waiting w') :
    wp awaitStop Q E w := by
  refine wp_react (fun xs _ v ↦ (.stop ∈ w.inbox ↔ .stop ∈ xs) ∧ xs <:+ w.inbox ∧
    v.log = w.log ∧ v.store = w.store) ?_ ?_ ⟨Iff.rfl, List.suffix_refl _, rfl, rfl⟩
  · rintro s v ⟨hmem, -, hlog, -⟩
    exact waiting (by simp [hmem]) v hlog
  · rintro x rest s v ⟨hmem, hsuffix, hlog, hstore⟩
    have hrest : rest <:+ w.inbox := (List.suffix_cons x rest).trans hsuffix
    by_cases hx : x = .stop
    · rw [if_pos hx]
      exact stopped (by simp [hmem, hx]) _ hlog hstore hrest
    · rw [if_neg hx]
      refine ⟨hmem.trans ?_, hrest, hlog, hstore⟩
      rw [List.mem_cons]
      exact or_iff_right (Ne.symm hx)

/-- The receive loop follows its manner. -/
theorem follows_receive (index : ℕ) (t : Timing) : Follows (manner index t) (listen index t) where
  packet s p w := by
    simp only [listen, wp_bind, wp_emit]
    cases p with
    | publish m =>
      simp only [onPacket, wp_bind, wp_emit, wp_record]
      have hcounts : Counts (.publish m) (.counted m.payload.length ::
          (sampleOf t (t.clock s.messages) m.payload).toList.map .sampled) := ⟨_, rfl⟩
      refine wp_sendReply _ ?_ ?_
      · refine ⟨by simp, by simp, ⟨_, ⟨_, [], hcounts, rfl, rfl⟩, ?_⟩, rfl⟩
        simp [manner, Subscribe.replyTo]
      · intro r e hr hv
        exact Or.inr ⟨hv, ⟨e, rfl⟩, _, r, hcounts, hr, by simp⟩
    | pubrel rel =>
      simp only [onPacket, wp_bind]
      refine wp_send _ ?_ ?_
      · exact ⟨rfl, rfl, ⟨_, ⟨[], [], rfl, rfl, rfl⟩, by simp [manner, Subscribe.replyTo]⟩, rfl⟩
      · exact fun e hv ↦ Or.inr ⟨hv, ⟨e, rfl⟩, [], _, rfl, rfl, by simp⟩
    | disconnect code =>
      exact Or.inl ⟨_, rfl, rfl, _, ⟨[], [], rfl, rfl, rfl⟩, rfl⟩
    | _ => exact ⟨rfl, rfl, ⟨_, ⟨[], [], rfl, rfl, rfl⟩, rfl⟩, rfl⟩
  silent s x w hx := by
    cases x with
    | packet p => exact absurd rfl (hx p)
    | stop => exact ⟨rfl, rfl, rfl⟩
    | idle => exact ⟨rfl, rfl, rfl, rfl, Or.inl rfl⟩
    | readError e => exact Or.inl ⟨rfl, rfl⟩
    | eof =>
      simp only [listen, wp_bind]
      refine wp_awaitStop ?_ ?_
      · intro hmem w' hlog hstore _
        exact ⟨by rw [hstore], by simp [manner, hmem], hlog⟩
      · intro hmem w' hlog
        exact Or.inl ⟨by simp [manner, hmem], hlog⟩

end Subscriber

end Bench

end PulsemqCli
