import PulsemqCli.Transport.Ws

/-!
# What a completed flush says

`AsyncWrite` promises that once `poll_flush` or `poll_shutdown` has completed, all that was written
has gone out. `WsByteStream` keeps a flag `sending` between calls: a flush that starts while an
earlier message is on its way waits for that message, and returns when it is out, whatever has been
written since. And `poll_shutdown` closes the inner sink without a look at what is buffered.

What is lost from sight is a write that comes between two calls of one flush. A caller that polls a
flush to its end before it writes again is never affected (`orderly_nothingBehind`). The contract of
`AsyncWrite` asks for more: any caller may drop a flush and start another one.

`NothingBehind` is a condition on the state before the call and on what the inner sink does, and it
is exact, call by call: where something is behind, the call that completes leaves it unsent.
-/

namespace PulsemqCli

namespace Transport

namespace Ws

namespace Session

open Transition

variable {ε : Type} {s : Session ε}

/-- A call of a method of the stream, or a message from its peer. -/
inductive Call (ε : Type) where
  | act (a : Act ε)
  | shutdown (closed : Poll (Except ε Unit))

def call (s : Session ε) : Call ε → Session ε
  | .act a => s.step a
  | .shutdown closed => { s with stream := (s.stream.pollShutdown closed).2 }

/-- What a call of `poll_flush` or `poll_shutdown` returns. -/
def returned (s : Session ε) : Call ε → Option (Poll (Except ε Unit))
  | .act (.flush sink) => some (s.stream.pollFlush sink).1
  | .shutdown closed => some (s.stream.pollShutdown closed).1
  | _ => none

/-- If the call completes a flush or a shutdown, every byte accepted has been passed to
`start_send`. -/
def Settles (s : Session ε) (c : Call ε) : Prop :=
  s.returned c = some (.ready (.ok ())) →
    (s.call c).stream.writeBuf = [] ∧
      (s.call c).stream.outgoing.flatMap Message.bytes = (s.call c).accepted

/-- The call does not complete the sending of an earlier message while later bytes are buffered, and
does not close the sink on buffered bytes. -/
def NothingBehind (s : Session ε) : Call ε → Prop
  | .act (.flush sink) =>
    s.stream.sending = true → sink.pollFlush = .ready (.ok ()) → s.stream.writeBuf = []
  | .shutdown closed => closed = .ready (.ok ()) → s.stream.writeBuf = []
  | _ => True

/-- The property holds of every call of a run, in the state it is made in. -/
def Throughout (P : Session ε → Call ε → Prop) (s : Session ε) : List (Call ε) → Prop
  | [] => True
  | c :: calls => P s c ∧ Throughout P (s.call c) calls

theorem Faithful.call (h : Faithful s) (c : Call ε) : Faithful (s.call c) := by
  cases c with
  | act a => exact h.step a
  | shutdown closed => exact ⟨h.read, h.write⟩

/-- Properties that agree on a faithful stream agree throughout a run. -/
theorem throughout_congr {P Q : Session ε → Call ε → Prop}
    (hPQ : ∀ s c, Faithful s → (P s c ↔ Q s c)) (h : Faithful s) (calls : List (Call ε)) :
    Throughout P s calls ↔ Throughout Q s calls := by
  induction calls generalizing s with
  | nil => exact Iff.rfl
  | cons c calls ih => exact and_congr (hPQ s c h) (ih (h.call c))

/-- What is accepted and not buffered was passed on. -/
theorem settles_iff_writeBuf (h : Faithful s) (c : Call ε) :
    Settles s c ↔
      (s.returned c = some (.ready (.ok ())) → (s.call c).stream.writeBuf = []) := by
  refine ⟨fun hsettles hreturned ↦ (hsettles hreturned).1, fun hempty hreturned ↦
    ⟨hempty hreturned, ?_⟩⟩
  have hwrite := (h.call c).write
  rwa [hempty hreturned, List.append_nil] at hwrite

theorem flushed_stream (called : Poll (Except ε Unit) × WsByteStream ε) :
    (s.flushed called).stream = called.2 := by
  obtain ⟨- | (e | -), t⟩ := called <;> rfl

/-- **One call of `poll_flush`.** While a message is being sent it waits for that message alone. -/
theorem settles_flush_iff (h : Faithful s) (sink : WsByteStream.Sink ε) :
    Settles s (.act (.flush sink)) ↔ NothingBehind s (.act (.flush sink)) := by
  rw [settles_iff_writeBuf h]
  show (some (s.stream.pollFlush sink).1 = some (.ready (.ok ())) →
    (s.flushed (s.stream.pollFlush sink)).stream.writeBuf = []) ↔ _
  rw [flushed_stream, Option.some_inj]
  by_cases hsending : s.stream.sending = true
  · -- The branch of `poll_flush` that only drives the inner sink.
    have hpoll : s.stream.pollFlush sink = s.stream.pollSending sink.pollFlush := if_pos hsending
    rw [hpoll]
    by_cases hflush : sink.pollFlush = .ready (.ok ())
    · rw [hflush]
      exact ⟨fun hempty _ _ ↦ hempty rfl, fun hbehind _ ↦ hbehind hsending hflush⟩
    · refine iff_of_true (fun hok ↦ absurd ?_ hflush) fun _ hok ↦ absurd hok hflush
      rcases hwaits : sink.pollFlush with _ | (e | _)
      · rw [hwaits] at hok
        cases hok
      · rw [hwaits] at hok
        cases hok
      · rfl
  · refine ⟨fun _ hsending' ↦ absurd hsending' hsending, fun _ hok ↦ ?_⟩
    have hflushes := s.stream.flushes_pollFlush sink
    rw [hok] at hflushes
    generalize (s.stream.pollFlush sink).2 = t at hflushes ⊢
    cases hflushes with
    | waits hne => exact absurd rfl hne
    | finishes hsending' => exact absurd hsending' hsending
    | idles _ hempty => exact hempty
    | starts => rfl

/-- **One call.** -/
theorem settles_iff (c : Call ε) (h : Faithful s) : Settles s c ↔ NothingBehind s c := by
  cases c with
  | shutdown closed =>
    rw [settles_iff_writeBuf h]
    show (some closed = some _ → s.stream.writeBuf = []) ↔ _
    rw [Option.some_inj]
    rfl
  | act a =>
    cases a with
    | flush sink => exact settles_flush_iff h sink
    | deliver x => exact iff_of_true (fun hreturned ↦ by cases hreturned) trivial
    | read remaining => exact iff_of_true (fun hreturned ↦ by cases hreturned) trivial
    | write buf => exact iff_of_true (fun hreturned ↦ by cases hreturned) trivial

/-- **A completed flush or shutdown means that all was passed on**, throughout a run, exactly if no
call of the run completes the sending of an earlier message, or the closing of the sink, while bytes
written later are buffered. Whether some result of the inner sink makes the next call do so is
decided by the state: by bytes behind a message being sent for a flush, by any bytes for a shutdown.
-/
theorem settles_throughout_iff (ε : Type) :
    (∀ calls, Throughout Settles (new ε) calls ↔ Throughout NothingBehind (new ε) calls) ∧
    (∀ s : Session ε, Faithful s →
      ((∀ sink, Settles s (.act (.flush sink))) ↔
        (s.stream.sending = true → s.stream.writeBuf = [])) ∧
      ((∀ closed, Settles s (.shutdown closed)) ↔ s.stream.writeBuf = [])) := by
  refine ⟨throughout_congr (fun s c h ↦ settles_iff c h) ⟨rfl, rfl⟩, fun s h ↦ ⟨?_, ?_⟩⟩
  · simp only [settles_iff _ h]
    exact ⟨fun hall hsending ↦ hall ⟨.pending, .ok (), .ready (.ok ())⟩ hsending rfl,
      fun hempty _ hsending _ ↦ hempty hsending⟩
  · simp only [settles_iff _ h]
    exact ⟨fun hall ↦ hall (.ready (.ok ())) rfl, fun hempty _ _ ↦ hempty⟩

/-- A byte is written and its flush is abandoned while the sink is busy; the flush of a second byte
completes with that byte still buffered. -/
theorem not_settles_abandoned :
    ¬∀ calls : List (Call Unit), Throughout Settles (new Unit) calls := by
  intro h
  have hrun := h [.act (.write [0]),
    .act (.flush ⟨.ready (.ok ()), .ok (), .pending⟩),
    .act (.write [1]),
    .act (.flush ⟨.ready (.ok ()), .ok (), .ready (.ok ())⟩)]
  have hbuffered : [(1 : UInt8)] = [] := (hrun.2.2.2.1 rfl).1
  cases hbuffered

/-- Callers that poll each flush to its completion before they write again never see this of a
flush. -/
theorem orderly_nothingBehind (ε : Type) :
    Always OrderlyStep (new ε) fun s ↦ ∀ sink, NothingBehind s (.act (.flush sink)) := by
  have hnew : InRound (new ε) := .writing rfl rfl (show [] = [] from rfl)
  refine (always_of_invariant (I := InRound) hnew
    fun s s' h hstep ↦ h.step hstep).mono fun s h sink hsending _ ↦ ?_
  cases h with
  | writing hsending' => exact absurd (hsending'.symm.trans hsending) Bool.false_ne_true
  | sending _ _ hwrite => exact hwrite

end Session

end Ws

end Transport

end PulsemqCli
