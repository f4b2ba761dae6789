import PulsemqCli.Library.Transition
import Mathlib.Data.List.Basic

/-!
# The byte stream over a WebSocket

`WsByteStream` makes a byte stream of a stream of messages. A read hands out the bytes of the
Binary messages, however they are cut, and passes over every other message but Close. A write is
buffered; a flush makes one Binary message of what was written.

What the inner `WebSocketStream` returns is an input: of `poll_next`, a queue of results, to which
its peer adds; of the methods of its sink, what each returns in a call of `poll_flush`. Either may
be `Pending` at any time.

A session is any sequence of calls of the three methods on a stream that begins empty, with any
results of the inner stream. Bytes that are read are compared with the messages that came in: what a
caller has been given, and what is left in the buffer, is what the Binary messages held, in order
(`Faithful`). Bytes that are written are compared with the messages that went out in the same way. A
flush may take several calls, over which the flag and the buffer tell how far it is; each of these
rounds is one message, so that cutting a stream at its flushes gives the messages back.

What `poll_flush` promises to its callers is another matter, and is looked at in
`Transport.Ws.Flush`.
-/

namespace PulsemqCli

namespace Transport

namespace Ws

open Transition

/-- A WebSocket message. -/
inductive Message where
  | text (data : List UInt8)
  | binary (data : List UInt8)
  | ping (data : List UInt8)
  | pong (data : List UInt8)
  | close
  | frame (data : List UInt8)
  deriving DecidableEq, Repr

/-- The bytes of a Binary message. -/
def Message.bytes : Message → List UInt8
  | .binary data => data
  | _ => []

inductive Poll (α : Type) where
  | pending
  | ready (a : α)
  deriving DecidableEq, Repr

/-- What `poll_next` of the inner stream returns. -/
inductive Next (ε : Type) where
  | pending
  | ended
  | message (m : Message)
  | failed (e : ε)
  deriving DecidableEq, Repr

namespace Next

variable {ε : Type}

/-- The bytes of a Binary message. -/
def bytes : Next ε → List UInt8
  | .message m => m.bytes
  | _ => []

/-- Close, or the end of the stream. -/
def IsEnd (x : Next ε) : Prop :=
  x = .ended ∨ x = .message .close

end Next

structure WsByteStream (ε : Type) where
  /-- What `inner.poll_next` returns, one call after the other; `Pending` when there is nothing
  more. -/
  incoming : List (Next ε)
  /-- What was passed to `inner.start_send`. -/
  outgoing : List Message
  readBuf : List UInt8
  readPos : ℕ
  writeBuf : List UInt8
  sending : Bool

namespace WsByteStream

variable {ε : Type}

def new : WsByteStream ε where
  incoming := []
  outgoing := []
  readBuf := []
  readPos := 0
  writeBuf := []
  sending := false

/-- The bytes received and not handed out yet. -/
def unread (s : WsByteStream ε) : List UInt8 :=
  s.readBuf.drop s.readPos

/-- What is unread is handed out, as far as there is room for it. -/
def handOut (remaining : ℕ) (s : WsByteStream ε) :
    Poll (Except ε (List UInt8)) × WsByteStream ε :=
  let n := min (s.readBuf.length - s.readPos) remaining
  (.ready (.ok (s.unread.take n)), { s with readPos := s.readPos + n })

/-- `poll_next` returned a result, and nothing is unread. -/
def take (rest : List (Next ε)) (s : WsByteStream ε) : WsByteStream ε :=
  { s with incoming := rest, readBuf := [], readPos := 0 }

/-- The loop of `poll_read`, with room for `remaining` bytes in the caller's buffer, over what
`poll_next` returns. It returns the bytes it put into the buffer. -/
def pollReadLoop (remaining : ℕ) (s : WsByteStream ε) :
    List (Next ε) → Poll (Except ε (List UInt8)) × WsByteStream ε
  | [] =>
    if s.readPos < s.readBuf.length then handOut remaining s
    else (.pending, s.take [])
  | x :: rest =>
    if s.readPos < s.readBuf.length then handOut remaining s
    else
      match x with
      | .message (.binary bytes) =>
        pollReadLoop remaining { s.take rest with readBuf := bytes } rest
      | .message .close | .ended => (.ready (.ok []), s.take rest)
      | .message _ => pollReadLoop remaining (s.take rest) rest
      | .failed e => (.ready (.error e), s.take rest)
      | .pending => (.pending, s.take rest)

def pollRead (remaining : ℕ) (s : WsByteStream ε) :
    Poll (Except ε (List UInt8)) × WsByteStream ε :=
  pollReadLoop remaining s s.incoming

/-- `poll_write`, which accepts every byte at once. -/
def pollWrite (buf : List UInt8) (s : WsByteStream ε) : WsByteStream ε :=
  { s with writeBuf := s.writeBuf ++ buf }

/-- The branch of `poll_flush` that waits for the inner sink. -/
def pollSending (flushed : Poll (Except ε Unit)) (s : WsByteStream ε) :
    Poll (Except ε Unit) × WsByteStream ε :=
  match flushed with
  | .ready (.ok ()) => (.ready (.ok ()), { s with sending := false })
  | .ready (.error e) => (.ready (.error e), s)
  | .pending => (.pending, s)

/-- What the inner sink's methods return in a call of `poll_flush`, each of which it calls once at
most. -/
structure Sink (ε : Type) where
  pollReady : Poll (Except ε Unit)
  startSend : Except ε Unit
  pollFlush : Poll (Except ε Unit)

def pollFlush (sink : Sink ε) (s : WsByteStream ε) : Poll (Except ε Unit) × WsByteStream ε :=
  if s.sending then pollSending sink.pollFlush s
  else if s.writeBuf = [] then (sink.pollFlush, s)
  else
    match sink.pollReady with
    | .ready (.ok ()) =>
      let s := { s with writeBuf := [], outgoing := s.outgoing ++ [.binary s.writeBuf] }
      match sink.startSend with
      -- The loop goes round once more, into the branch above.
      | .ok () => pollSending sink.pollFlush { s with sending := true }
      | .error e => (.ready (.error e), s)
    | .ready (.error e) => (.ready (.error e), s)
    | .pending => (.pending, s)

/-- `poll_shutdown`, where `inner.poll_close` returns `closed`. -/
def pollShutdown (closed : Poll (Except ε Unit)) (s : WsByteStream ε) :
    Poll (Except ε Unit) × WsByteStream ε :=
  (closed, s)

/-! ### What a poll does

One lemma for each way a poll can come out. They are stated for the stream alone, with the results
of the inner stream as they are consumed. -/

/-- The bytes that a call of `poll_read` put into the caller's buffer. -/
def handed : Poll (Except ε (List UInt8)) → List UInt8
  | .ready (.ok bytes) => bytes
  | _ => []

/-- What a call of `poll_read` may do: it takes results of `poll_next` from the front, it hands out
the bytes they bring in order, and it leaves the writing side alone. -/
structure Reads (remaining : ℕ) (s : WsByteStream ε) (result : Poll (Except ε (List UInt8)))
    (s' : WsByteStream ε) (passed : List (Next ε)) : Prop where
  incoming : s.incoming = passed ++ s'.incoming
  bytes : handed result ++ s'.unread = s.unread ++ passed.flatMap Next.bytes
  outgoing : s'.outgoing = s.outgoing
  writeBuf : s'.writeBuf = s.writeBuf
  sending : s'.sending = s.sending
  /-- Nothing is handed out only at the end, or where there is no room. -/
  empty : result = .ready (.ok []) → 0 < remaining → ∃ x ∈ passed.getLast?, x.IsEnd

theorem reads_handOut {remaining : ℕ} {s : WsByteStream ε} (h : s.readPos < s.readBuf.length) :
    Reads remaining s (handOut remaining s).1 (handOut remaining s).2 [] where
  incoming := rfl
  bytes := by
    have hdrop : (handOut remaining s).2.unread =
        s.unread.drop (min (s.readBuf.length - s.readPos) remaining) :=
      List.drop_drop.symm
    rw [hdrop]
    exact (List.take_append_drop _ _).trans (List.append_nil _).symm
  outgoing := rfl
  writeBuf := rfl
  sending := rfl
  empty hempty hpos := by
    have htake : s.unread.take (min (s.readBuf.length - s.readPos) remaining) = [] :=
      Except.ok.inj (Poll.ready.inj hempty)
    have hlength := congrArg List.length htake
    rw [List.length_take, unread, List.length_drop, List.length_nil] at hlength
    omega

/-- A result of `poll_next` is taken where nothing is unread, and the loop goes on. -/
theorem Reads.pass {remaining : ℕ} {s s' : WsByteStream ε} {x : Next ε}
    {rest passed : List (Next ε)} {result : Poll (Except ε (List UInt8))}
    (hincoming : s.incoming = x :: rest) (hunread : s.unread = [])
    (h : Reads remaining { s.take rest with readBuf := x.bytes } result s' passed) :
    Reads remaining s result s' (x :: passed) where
  incoming := by
    have hrest : rest = passed ++ s'.incoming := h.incoming
    rw [hincoming, hrest, List.cons_append]
  bytes := by
    rw [hunread, List.nil_append, List.flatMap_cons]
    exact h.bytes
  outgoing := h.outgoing
  writeBuf := h.writeBuf
  sending := h.sending
  empty hempty hpos := by
    obtain ⟨y, hy, hend⟩ := h.empty hempty hpos
    exact ⟨y, List.mem_getLast?_cons hy, hend⟩

/-- The loop ends with a result that brings no bytes. -/
theorem Reads.stop {remaining : ℕ} {s : WsByteStream ε} {x : Next ε} {rest : List (Next ε)}
    {result : Poll (Except ε (List UInt8))} (hincoming : s.incoming = x :: rest)
    (hunread : s.unread = []) (hbytes : x.bytes = []) (hhanded : handed result = [])
    (hlast : result = .ready (.ok []) → x.IsEnd) :
    Reads remaining s result (s.take rest) [x] where
  incoming := hincoming
  bytes := by
    rw [hhanded, hunread, List.flatMap_singleton, hbytes]
    rfl
  outgoing := rfl
  writeBuf := rfl
  sending := rfl
  empty hempty _ := ⟨x, rfl, hlast hempty⟩

/-- **What a call of `poll_read` does.** -/
theorem reads_pollRead (remaining : ℕ) (s : WsByteStream ε) :
    ∃ passed, Reads remaining s (pollRead remaining s).1 (pollRead remaining s).2 passed := by
  have hloop : ∀ incoming (s : WsByteStream ε), s.incoming = incoming → ∃ passed, Reads remaining s
      (pollReadLoop remaining s incoming).1 (pollReadLoop remaining s incoming).2 passed := by
    intro incoming
    induction incoming with
    | nil =>
      intro s hincoming
      unfold pollReadLoop
      split
      next h => exact ⟨[], reads_handOut h⟩
      next h =>
        have hunread : s.unread = [] := List.drop_of_length_le (Nat.not_lt.1 h)
        refine ⟨[], hincoming, ?_, rfl, rfl, rfl, fun hempty ↦ ?_⟩
        · rw [hunread]
          rfl
        · cases hempty
    | cons x rest ih =>
      intro s hincoming
      unfold pollReadLoop
      split
      next h => exact ⟨[], reads_handOut h⟩
      next h =>
        have hunread : s.unread = [] := List.drop_of_length_le (Nat.not_lt.1 h)
        have hgoOn : ∃ passed, Reads remaining { s.take rest with readBuf := x.bytes }
          (pollReadLoop remaining { s.take rest with readBuf := x.bytes } rest).1
          (pollReadLoop remaining { s.take rest with readBuf := x.bytes } rest).2 passed := ih _ rfl
        obtain ⟨passed, hpassed⟩ := hgoOn
        have hpass := hpassed.pass hincoming hunread
        cases x with
        | pending => exact ⟨_, .stop hincoming hunread rfl rfl fun h ↦ by cases h⟩
        | ended => exact ⟨_, .stop hincoming hunread rfl rfl fun _ ↦ Or.inl rfl⟩
        | failed e => exact ⟨_, .stop hincoming hunread rfl rfl fun h ↦ by cases h⟩
        | message m =>
          cases m with
          | close => exact ⟨_, .stop hincoming hunread rfl rfl fun _ ↦ Or.inr rfl⟩
          | _ => exact ⟨_, hpass⟩
  exact hloop s.incoming s rfl

/-- What a call of `poll_flush` may do: wait or fail, finish the message being sent, find nothing to
send, or pass everything that was written to the sink as one message. -/
inductive Flushes (s : WsByteStream ε) : Poll (Except ε Unit) → WsByteStream ε → Prop where
  | waits {result : Poll (Except ε Unit)} : result ≠ .ready (.ok ()) → Flushes s result s
  | finishes : s.sending = true → Flushes s (.ready (.ok ())) { s with sending := false }
  | idles : s.sending = false → s.writeBuf = [] → Flushes s (.ready (.ok ())) s
  | starts {result : Poll (Except ε Unit)} (sending : Bool) : s.sending = false →
      s.writeBuf ≠ [] → (result = .ready (.ok ()) → sending = false) → Flushes s result
        { s with
          writeBuf := []
          outgoing := s.outgoing ++ [.binary s.writeBuf]
          sending := sending }

/-- **What a call of `poll_flush` does.** -/
theorem flushes_pollFlush (sink : Sink ε) (s : WsByteStream ε) :
    Flushes s (pollFlush sink s).1 (pollFlush sink s).2 := by
  unfold pollFlush
  split
  next hsending =>
    rcases hflush : sink.pollFlush with - | (e | -)
    · exact .waits fun h ↦ by cases h
    · exact .waits fun h ↦ by cases h
    · exact .finishes hsending
  next hsending =>
    replace hsending := Bool.eq_false_iff.2 hsending
    split
    next hempty =>
      rcases hflush : sink.pollFlush with - | (e | -)
      · exact .waits fun h ↦ by cases h
      · exact .waits fun h ↦ by cases h
      · exact .idles hsending hempty
    next hbytes =>
      split
      next =>
        split
        next =>
          rcases hflush : sink.pollFlush with - | (e | -)
          · exact .starts true hsending hbytes fun h ↦ by cases h
          · exact .starts true hsending hbytes fun h ↦ by cases h
          · exact .starts false hsending hbytes fun _ ↦ rfl
        next e => exact .starts s.sending hsending hbytes fun h ↦ by cases h
      next e => exact .waits fun h ↦ by cases h
      next => exact .waits fun h ↦ by cases h

end WsByteStream

/-! ### Sessions

A session adds what the stream itself forgets: what its caller was handed, what it has accepted, and
in which rounds. A call of a method is a step of the session. -/

/-- A byte stream, with what went through it. -/
structure Session (ε : Type) where
  stream : WsByteStream ε
  /-- What `poll_next` returned. -/
  received : List (Next ε)
  /-- The bytes handed to callers. -/
  handed : List UInt8
  /-- The bytes `poll_write` accepted. -/
  accepted : List UInt8
  /-- A flush was polled and has not completed. -/
  flushing : Bool
  /-- What was written since the last flush that completed. -/
  round : List UInt8
  /-- What was written before each flush that completed. -/
  rounds : List (List UInt8)

namespace Session

variable {ε : Type}

def new (ε : Type) : Session ε where
  stream := .new
  received := []
  handed := []
  accepted := []
  flushing := false
  round := []
  rounds := []

/-- What a caller, or the inner stream's peer, does next. -/
inductive Act (ε : Type) where
  | deliver (x : Next ε)
  | read (remaining : ℕ)
  | write (buf : List UInt8)
  | flush (sink : WsByteStream.Sink ε)

/-- The results of `poll_next` that a call took. -/
def passed (s t : WsByteStream ε) : List (Next ε) :=
  s.incoming.take (s.incoming.length - t.incoming.length)

/-- A call of `poll_flush` has returned. -/
def flushed (s : Session ε) : Poll (Except ε Unit) × WsByteStream ε → Session ε
  | (.ready (.ok ()), t) =>
    { s with stream := t, flushing := false, round := [], rounds := s.rounds ++ [s.round] }
  | (_, t) => { s with stream := t, flushing := true }

def step (s : Session ε) : Act ε → Session ε
  | .deliver x => { s with stream := { s.stream with incoming := s.stream.incoming ++ [x] } }
  | .read remaining =>
    let (result, t) := s.stream.pollRead remaining
    { s with
      stream := t
      received := s.received ++ passed s.stream t
      handed := s.handed ++ WsByteStream.handed result }
  | .write buf =>
    { s with
      stream := s.stream.pollWrite buf
      accepted := s.accepted ++ buf
      round := s.round ++ buf }
  | .flush sink => s.flushed (s.stream.pollFlush sink)

/-- A step by anyone. -/
def Step (s s' : Session ε) : Prop :=
  ∃ a, s' = s.step a

/-- A step of callers that poll each flush to its completion before the next write. -/
def OrderlyStep (s s' : Session ε) : Prop :=
  ∃ a, (∀ buf, a = .write buf → s.flushing = false) ∧ s' = s.step a

/-- No byte is lost, made up or moved, in either direction. -/
structure Faithful (s : Session ε) : Prop where
  read : s.handed ++ s.stream.unread = s.received.flatMap Next.bytes
  write : s.stream.outgoing.flatMap Message.bytes ++ s.stream.writeBuf = s.accepted

/-- Every round of writes that wrote a byte made one message. -/
def Framed (s : Session ε) : Prop :=
  s.stream.outgoing = (s.rounds.filter (· ≠ [])).map .binary

variable {s s' : Session ε}

theorem passed_eq {s t : WsByteStream ε} {taken : List (Next ε)}
    (h : s.incoming = taken ++ t.incoming) : passed s t = taken := by
  have hlength : s.incoming.length - t.incoming.length = taken.length := by
    rw [h, List.length_append, Nat.add_sub_cancel]
  rw [passed, hlength, h, List.take_left]

/-- **A step keeps the byte stream faithful.** -/
theorem Faithful.step (h : Faithful s) (a : Act ε) : Faithful (s.step a) := by
  obtain ⟨hread, hwrite⟩ := h
  cases a with
  | deliver x => exact ⟨hread, hwrite⟩
  | read remaining =>
    obtain ⟨taken, hreads⟩ := s.stream.reads_pollRead remaining
    refine ⟨?_, ?_⟩
    · show (s.handed ++ WsByteStream.handed (s.stream.pollRead remaining).1) ++
        (s.stream.pollRead remaining).2.unread =
        (s.received ++ passed s.stream (s.stream.pollRead remaining).2).flatMap Next.bytes
      rw [passed_eq hreads.incoming, List.flatMap_append, ← hread, List.append_assoc, hreads.bytes,
        List.append_assoc]
    · show (s.stream.pollRead remaining).2.outgoing.flatMap Message.bytes ++
        (s.stream.pollRead remaining).2.writeBuf = s.accepted
      rw [hreads.outgoing, hreads.writeBuf]
      exact hwrite
  | write buf =>
    refine ⟨hread, ?_⟩
    show s.stream.outgoing.flatMap Message.bytes ++ (s.stream.writeBuf ++ buf) = s.accepted ++ buf
    rw [← List.append_assoc, hwrite]
  | flush sink =>
    have hflushes := s.stream.flushes_pollFlush sink
    show Faithful (s.flushed (s.stream.pollFlush sink))
    generalize s.stream.pollFlush sink = called at hflushes ⊢
    obtain ⟨result, t⟩ := called
    simp only at hflushes
    have hsame : t.unread = s.stream.unread ∧ t.outgoing.flatMap Message.bytes ++ t.writeBuf =
        s.stream.outgoing.flatMap Message.bytes ++ s.stream.writeBuf := by
      cases hflushes with
      | waits | finishes | idles => exact ⟨rfl, rfl⟩
      | starts =>
        refine ⟨rfl, ?_⟩
        rw [List.flatMap_append, List.append_nil, List.flatMap_singleton]
        rfl
    obtain ⟨hunread, hbytes⟩ := hsame
    have hread' : s.handed ++ t.unread = s.received.flatMap Next.bytes := by rw [hunread, hread]
    rcases result with - | (e | -) <;> exact ⟨hread', hbytes.trans hwrite⟩

/-- How far a round of writes and polls of its flush has come. -/
inductive InRound (s : Session ε) : Prop where
  /-- What was written is still to be sent. -/
  | writing : s.stream.sending = false → s.stream.writeBuf = s.round → Framed s → InRound s
  /-- It was passed on, and the flush goes on. -/
  | sending : s.flushing = true → s.round ≠ [] → s.stream.writeBuf = [] →
      s.stream.outgoing = (s.rounds.filter (· ≠ [])).map .binary ++ [.binary s.round] → InRound s

/-- A round that wrote something makes one message. -/
theorem filter_round {round : List UInt8} (h : round ≠ []) :
    ([round].filter (· ≠ [])).map Message.binary = [.binary round] := by
  simp [h]

theorem flushed_of_ne {result : Poll (Except ε Unit)} (h : result ≠ .ready (.ok ()))
    (t : WsByteStream ε) : s.flushed (result, t) = { s with stream := t, flushing := true } := by
  cases result with
  | pending => rfl
  | ready outcome =>
    cases outcome with
    | error e => rfl
    | ok _ => exact absurd rfl h

/-- A flush completes, and the next round begins. -/
theorem InRound.complete {t : WsByteStream ε} (hsending : t.sending = false)
    (hwrite : t.writeBuf = []) (hsent : t.outgoing =
      (s.rounds.filter (· ≠ [])).map .binary ++ ([s.round].filter (· ≠ [])).map .binary) :
    InRound (s.flushed (.ready (.ok ()), t)) := by
  refine .writing hsending hwrite ?_
  show t.outgoing = ((s.rounds ++ [s.round]).filter (· ≠ [])).map .binary
  rw [hsent, List.filter_append, List.map_append]

/-- **An orderly step keeps to the rounds.** -/
theorem InRound.step (h : InRound s) (hstep : OrderlyStep s s') : InRound s' := by
  obtain ⟨a, horderly, rfl⟩ := hstep
  cases a with
  | deliver x =>
    cases h with
    | writing hsending hwrite hframed => exact .writing hsending hwrite hframed
    | sending hflushing hround hwrite hsent => exact .sending hflushing hround hwrite hsent
  | read remaining =>
    obtain ⟨taken, hreads⟩ := s.stream.reads_pollRead remaining
    cases h with
    | writing hsending hwrite hframed =>
      exact .writing (hreads.sending.trans hsending) (hreads.writeBuf.trans hwrite)
        (hreads.outgoing.trans hframed)
    | sending hflushing hround hwrite hsent =>
      exact .sending hflushing hround (hreads.writeBuf.trans hwrite) (hreads.outgoing.trans hsent)
  | write buf =>
    have hflushing := horderly buf rfl
    cases h with
    | writing hsending hwrite hframed =>
      exact .writing hsending (congrArg (· ++ buf) hwrite) hframed
    | sending hflushing' => exact absurd (hflushing.symm.trans hflushing') Bool.false_ne_true
  | flush sink =>
    have hflushes := s.stream.flushes_pollFlush sink
    show InRound (s.flushed (s.stream.pollFlush sink))
    generalize s.stream.pollFlush sink = called at hflushes ⊢
    obtain ⟨result, t⟩ := called
    simp only at hflushes
    cases h with
    | writing hsending hwrite hframed =>
      cases hflushes with
      | waits hresult =>
        rw [flushed_of_ne hresult]
        exact .writing hsending hwrite hframed
      | finishes hsending' => exact absurd (hsending.symm.trans hsending') Bool.false_ne_true
      | idles _ hempty =>
        refine .complete hsending hempty (hframed.trans ?_)
        rw [← hwrite, hempty]
        exact (List.append_nil _).symm
      -- What was written is passed on as one message, and the flush may complete at once.
      | starts sending _ hbytes hok =>
        have hround : s.round ≠ [] := hwrite ▸ hbytes
        have hsent : s.stream.outgoing ++ [Message.binary s.stream.writeBuf] =
            (s.rounds.filter (· ≠ [])).map .binary ++ [.binary s.round] := by
          rw [hwrite, show s.stream.outgoing = _ from hframed]
        by_cases hresult : result = .ready (.ok ())
        · rw [hresult]
          refine .complete (hok hresult) rfl ?_
          rw [filter_round hround]
          exact hsent
        · rw [flushed_of_ne hresult]
          exact .sending rfl hround rfl hsent
    | sending hflushing hround hwrite hsent =>
      have hsent' : s.stream.outgoing = (s.rounds.filter (· ≠ [])).map .binary ++
          ([s.round].filter (· ≠ [])).map .binary := by
        rw [hsent, filter_round hround]
      cases hflushes with
      | waits hresult =>
        rw [flushed_of_ne hresult]
        exact .sending rfl hround hwrite hsent
      | finishes => exact .complete rfl hwrite hsent'
      | idles hsending => exact .complete hsending hwrite hsent'
      | starts _ _ hbytes => exact absurd hwrite hbytes

/-- **`WsByteStream` is a faithful byte stream.** However reads, writes and flushes interleave, the
bytes handed out and those unread are those of the Binary messages received, and the bytes sent and
those not flushed are those accepted; nothing is handed out only at a Close or the end of the
stream; and where each flush is polled to its completion before the next write, the messages sent
are the rounds of writes that wrote anything. -/
theorem faithful (ε : Type) :
    Always Step (new ε) Faithful ∧
    (∀ (s t : WsByteStream ε) remaining, 0 < remaining →
      s.pollRead remaining = (.ready (.ok []), t) →
      ∃ taken x, s.incoming = taken ++ x :: t.incoming ∧ x.IsEnd) ∧
    Always OrderlyStep (new ε) fun s ↦
      s.flushing = false → Framed s ∧ s.stream.writeBuf = s.round := by
  refine ⟨always_of_invariant ⟨rfl, rfl⟩ fun s s' h ⟨a, ha⟩ ↦ ha ▸ h.step a, ?_, ?_⟩
  · intro s t remaining hpos hread
    obtain ⟨taken, hreads⟩ := s.reads_pollRead remaining
    rw [hread] at hreads
    obtain ⟨x, hx, hend⟩ := hreads.empty rfl hpos
    obtain ⟨taken', htaken⟩ := List.getLast?_eq_some_iff.1 hx
    refine ⟨taken', x, ?_, hend⟩
    rw [hreads.incoming, htaken, List.append_assoc, List.singleton_append]
  · have hnew : InRound (new ε) := .writing rfl rfl (show [] = [] from rfl)
    refine (always_of_invariant (I := InRound) hnew
      fun s s' h hstep ↦ h.step hstep).mono fun s h hflushing ↦ ?_
    cases h with
    | writing _ hwrite hframed => exact ⟨hframed, hwrite⟩
    | sending hflushing' => exact absurd (hflushing.symm.trans hflushing') Bool.false_ne_true

end Session

end Ws

end Transport

end PulsemqCli
