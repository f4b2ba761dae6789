import PulsemqCli.Publish
import PulsemqCli.Request
import PulsemqCli.Bench.Subscriber
import PulsemqCli.Bench.Publisher.Runs
import PulsemqCli.Bench.Publisher.Window

/-!
# The DISCONNECT a successful run ends with

A broker publishes the Will Message of a connection that ends without a DISCONNECT. The three
commands and the publishers of a benchmark write one whenever they end well. The subscribers of a
benchmark never do: a stop signal that finds the connection open makes one return success and
drop it. `stopsOpen` says of a subscriber's stimuli that this is how the run ends.

Three kinds of programs are compared, and each has its own argument. A command is a sequence that
ends with `disconnect`, whatever came before; `Parts` says this of a program, and is kept by putting
anything in front (`Parts.bind`). A publisher is a state machine, where the DISCONNECT is the write
of one phase: `Parted` says that beyond this phase it is the packet written last, and the only step
that leads there without the write is a failed one.

A subscriber writes no DISCONNECT at all, so for it the question is when that matters. A run that
fails is not at issue, and a broker's DISCONNECT fails it; past the end of the stream there is
nobody left to write to. What is left is the stop signal on an open connection; `Left` describes the
runs that return there, and `stopsOpen` finds them among the stimuli.
-/

namespace PulsemqCli

namespace Disconnect

open Transition Reactive Protocol Client Bench

/-! ### The last packet written -/

/-- The packet an event wrote. -/
def writtenPacket : Event → Option Packet
  | .sent p => some p
  | _ => none

/-- The last packet the client wrote. -/
def lastWritten (log : List Event) : Option Packet :=
  (log.filterMap writtenPacket).getLast?

/-- A process that returned, and read no end of the stream on the way, wrote a DISCONNECT last. -/
def EndsWithDisconnect {α : Type} (m : Command α) (w : Net) : Prop :=
  ∀ a w' read, m w = .ok a w' → w.inbox = read ++ w'.inbox → .eof ∉ read →
    lastWritten w'.log = some (.disconnect .success)

/-- The packet written now is the last one. -/
theorem lastWritten_append_sent (log : List Event) (p : Packet) :
    lastWritten (log ++ [.sent p]) = some p := by
  simp [lastWritten, writtenPacket]

/-- What is written last stays another packet while that packet is not written. -/
theorem lastWritten_append_ne {log es : List Event} {p : Packet} (h : lastWritten log ≠ some p)
    (hes : .sent p ∉ es) : lastWritten (log ++ es) ≠ some p := by
  unfold lastWritten at h ⊢
  rw [List.filterMap_append, List.getLast?_append]
  intro hlast
  rcases Option.or_eq_some_iff.1 hlast with hmem | ⟨-, hmem⟩
  · obtain ⟨e, he, hep⟩ := List.mem_filterMap.1 (List.mem_of_getLast? hmem)
    cases e with
    | sent q =>
      obtain rfl := Option.some.inj hep
      exact hes he
    | _ => cases hep
  · exact h hmem

/-! ### The three commands -/

/-- A process that writes a DISCONNECT last whenever it returns. -/
def Parts {α : Type} (m : Command α) : Prop :=
  ∀ a w w', m w = .ok a w' → lastWritten w'.log = some (.disconnect .success)

/-- A program that parts with a DISCONNECT ends with one in each run that succeeds. -/
theorem Parts.endsWithDisconnect {α : Type} {m : Command α} (h : Parts m) (w : Net) :
    EndsWithDisconnect m w :=
  fun a w' _ hrun _ _ ↦ h a w w' hrun

/-- The DISCONNECT itself. -/
theorem parts_disconnect : Parts disconnect := by
  intro u w w' hrun
  have hwp : wp disconnect (fun _ w' ↦ lastWritten w'.log = some (.disconnect .success))
      (fun _ _ ↦ True) w :=
    wp_send _ (lastWritten_append_sent _ _) fun _ _ ↦ trivial
  exact hwp.of_ok hrun

/-- What comes before it does not matter. -/
theorem Parts.bind {α β : Type} {f : β → Command α} (h : ∀ b, Parts (f b)) (m : Command β) :
    Parts (m >>= f) := by
  intro a w w' hrun
  obtain ⟨b, v, -, hf⟩ := bind_eq_ok.1 hrun
  exact h b a v w' hf

theorem parts_publish (args : Publish.PubArgs) : Parts (Publish.run args) := by
  unfold Publish.run
  split
  all_goals exact .bind (fun _ ↦ parts_disconnect) _

theorem parts_subscribe (args : Subscribe.SubArgs) : Parts (Subscribe.run args) := by
  have hrest : Parts (do
      Subscribe.subscribe args.topic args.qos
      if args.effectiveLimit = some 0 then disconnect
      else do
        Subscribe.receive args.showTopic args.effectiveLimit
        disconnect) := by
    refine .bind (fun _ ↦ ?_) _
    split
    · exact parts_disconnect
    · exact .bind (fun _ ↦ parts_disconnect) _
  unfold Subscribe.run
  split
  · exact .bind (fun _ ↦ hrest) _
  · exact hrest

theorem parts_request (args : Request.RequestArgs) : Parts (Request.run args) :=
  .bind (fun _ ↦ .bind (fun _ ↦ parts_disconnect) _) _

/-! ### The publishers of a benchmark -/

section

open Publisher

variable {c : Setting} {s s' : State}

/-- A step of a publisher in which no write fails. -/
def SoundStep (c : Setting) (s s' : State) : Prop :=
  ∃ a, (∀ e, a ≠ .fail e) ∧ step c s a = some s'

/-- The phases a publisher is in once it has disconnected, unless it failed. -/
def Past : Phase → Prop
  | .joining _ | .returned (.ok _) => True
  | _ => False

/-- A publisher that has disconnected wrote the DISCONNECT last. -/
def Parted (s : State) : Prop :=
  Past s.phase → s.written.getLast? = some (.disconnect .success)

/-- A publisher leaves its last phase before the join by writing the DISCONNECT, if the write does
not fail. -/
theorem SoundStep.disconnects (h : SoundStep c s s') (hphase : s.phase = .disconnecting) :
    s'.phase = .disconnecting ∨ s'.written = s.written ++ [.disconnect .success] := by
  obtain ⟨a, hfail, ha⟩ := h
  cases a with
  | fail e => exact absurd rfl (hfail e)
  | advance =>
    simp only [step, advance, hphase, Option.some.injEq] at ha
    subst ha
    exact Or.inr rfl
  | halt => simp [step, halt, hphase] at ha
  | timeout => simp [step, timeout, hphase] at ha
  | acknowledge => exact Or.inl ((acknowledge_phase ha).trans hphase)
  | _ =>
    cases ha
    exact Or.inl hphase

/-- A sound step is one that the interleaving can make. -/
theorem SoundStep.move (h : SoundStep c s s') : Move c s s' := by
  obtain ⟨a, -, ha⟩ := h
  exact move_of_step ⟨a, ha⟩

theorem not_past_leave (s : State) : ¬Past (leave s).phase := by
  rcases leave_phase s with h | ⟨deadline, h⟩
  all_goals
    rw [h]
    exact id

theorem not_past_drained (s : State) (d : Drain) : ¬Past (drained s d).phase := by
  rcases drained_phase s d with h | h | ⟨deadline, wake, h⟩
  all_goals
    rw [h]
    exact id

/-- Past its DISCONNECT a publisher writes nothing more. -/
theorem Parted.step (hparted : Parted s) (h : SoundStep c s s') : Parted s' := by
  cases h.move with
  | tick | deliver | raiseStop | dropStop | readEof | readError | complete | completeUnknown
    | freeRefused | free | close => exact hparted
  | read =>
    intro hpast
    rw [onPacket_phase] at hpast
    rw [onPacket_written]
    exact hparted hpast
  | quotaReached | stopSeen | haltPacing | acquireClosed | haltAcquiring =>
    exact fun hpast ↦ absurd hpast (not_past_leave _)
  | drained | releaseIgnored => exact fun hpast ↦ absurd hpast (not_past_drained _ _)
  | disconnect => exact fun _ ↦ List.getLast?_concat
  | disconnectFails hphase =>
    rcases h.disconnects hphase with hstay | hwritten
    · cases hstay
    · intro _
      rw [hwritten]
      exact List.getLast?_concat
  | joined hphase =>
    intro _
    refine hparted ?_
    rw [hphase]
    trivial
  | _ => exact fun hpast ↦ hpast.elim

/-- A publisher whose writes succeed returns success only with the DISCONNECT written last. -/
theorem always_parted (c : Setting) (clock : ℕ) :
    Always (SoundStep c) (initial c clock) fun s ↦ ∀ samples,
      s.phase = .returned (.ok samples) → s.written.getLast? = some (.disconnect .success) := by
  have hinit : Parted (initial c clock) := fun hpast ↦ hpast.elim
  refine (always_of_invariant hinit fun _ _ h hstep ↦ h.step hstep).mono ?_
  intro s hparted samples hphase
  refine hparted ?_
  rw [hphase]
  trivial

end

/-! ### The subscribers of a benchmark

The question is asked of stimuli: given what is still to arrive, does the run return without a
DISCONNECT on an open connection? `stopsOpen` answers it by reading on as the code would. -/

section

open Subscriber

/-- Nothing ends the receive loop before the stop signal does. -/
def stopsFirst : List Stimulus → Bool
  | [] => false
  | .stop :: _ => true
  | .packet (.disconnect _) :: _ | .eof :: _ | .readError _ :: _ => false
  | _ :: rest => stopsFirst rest

/-- The subscription is granted, and the stop signal ends the run with the connection open. It may
have been raised before the SUBACK: it stays raised. -/
def stopsOpen (stopped : Bool) : List Stimulus → Bool
  | [] => false
  | .packet (.suback ack) :: rest =>
    !ack.reasonCodes.any ReasonCode.isError && (stopped || stopsFirst rest)
  | .stop :: rest => stopsOpen true rest
  | .eof :: _ | .readError _ :: _ => false
  | _ :: rest => stopsOpen stopped rest

/-- A subscriber has read up to the stimuli `xs`, the end of the stream not among what it read,
and has written no DISCONNECT last. -/
structure Heard (w : Net) (xs : List Stimulus) (v : Net) : Prop where
  read : ∃ read, w.inbox = read ++ xs ∧ .eof ∉ read
  fault : v.store.fault = w.store.fault
  unparted : lastWritten v.log ≠ some (.disconnect .success)

/-- A subscriber returned without a DISCONNECT; `stops` says whether the connection was open. -/
structure Left (w : Net) (stops : Bool) (w' : Net) : Prop where
  read : ∃ read, w.inbox = read ++ w'.inbox ∧ (.eof ∉ read ↔ stops = true)
  unparted : lastWritten w'.log ≠ some (.disconnect .success)

variable {w v v' : Net} {xs rest : List Stimulus}

/-- One stimulus further: what is heard is told by the log. -/
theorem Heard.next {x : Stimulus} (h : Heard w (x :: rest) v) (hx : x ≠ .eof)
    (hfault : v'.store.fault = v.store.fault) {es : List Event} (hlog : v'.log = v.log ++ es)
    (hes : .sent (.disconnect .success) ∉ es) : Heard w rest v' where
  read := by
    obtain ⟨read, hread, heof⟩ := h.read
    refine ⟨read ++ [x], by simp [hread], ?_⟩
    simp [heof, hx.symm]
  fault := hfault.trans h.fault
  unparted := hlog ▸ lastWritten_append_ne h.unparted hes

/-- No packet is answered by a DISCONNECT. -/
theorem replyTo_ne_disconnect (p : Packet) :
    Subscribe.replyTo p ≠ some (.disconnect .success) := by
  cases p with
  | publish m =>
    simp only [Subscribe.replyTo, Subscribe.ackFor]
    rcases m.packetId with - | id
    · simp
    · cases m.qos <;> simp
  | _ => simp [Subscribe.replyTo]

/-- A subscriber deals with no packet by a DISCONNECT. -/
theorem disconnect_notMem {index : ℕ} {t : Timing} {p : Packet} {es : List Event}
    (h : Receive.Exchange (Subscriber.manner index t) p es) :
    .sent (.disconnect .success) ∉ es := by
  obtain ⟨before, after, hbefore, hafter, rfl⟩ := h
  simp only [List.cons_append, List.mem_cons, List.mem_append, List.mem_map, Option.mem_toList]
  rintro (hreceived | (hmem | ⟨r, hreply, hr⟩) | hmem)
  · cases hreceived
  · exact (Subscriber.manner index t).before_delivers _ _ hbefore _ hmem
  · cases hr
    exact replyTo_ne_disconnect p hreply
  · exact (Subscriber.manner index t).after_delivers _ _ hafter _ hmem

/-- A DISCONNECT ends the receive loop, and no other packet does. -/
theorem stopsFirst_packet (index : ℕ) (t : Timing) (s : Received) (p : Packet)
    (rest : List Stimulus) :
    match (Subscriber.manner index t).verdict s p with
    | .again _ => stopsFirst (.packet p :: rest) = stopsFirst rest
    | .done => False
    | .refused _ => stopsFirst (.packet p :: rest) = false := by
  cases p <;> rfl

/-- **Specification of the receive loop.** It returns at the stop signal, and the connection was
open if nothing else came first. -/
theorem wp_receive_left (index : ℕ) (t : Timing) (h : Heard w v.inbox v) :
    wp (Subscriber.receive index t) (fun _ w' ↦ Left w (stopsFirst v.inbox) w')
      (fun _ _ ↦ stopsFirst v.inbox = false ∨ ¬w.AcceptsWrites) v := by
  refine wp_react (fun xs _ u ↦ Heard w xs u ∧ stopsFirst xs = stopsFirst v.inbox) ?_ ?_ ⟨h, rfl⟩
  · rintro s u ⟨-, hstops⟩
    exact Or.inl hstops.symm
  · rintro x rest s u ⟨hheard, hstops⟩
    cases x with
    | packet p =>
      have hpacket := stopsFirst_packet index t s p rest
      refine ((follows_receive index t).packet s p _).mono ?_ ?_
      · rintro (s' | samples) u' ⟨-, hfault, ⟨es, hes, hlog⟩, hverdict⟩
        · rw [hverdict] at hpacket
          exact ⟨hheard.next nofun hfault hlog (disconnect_notMem hes), hpacket.symm.trans hstops⟩
        · rw [hverdict] at hpacket
          exact hpacket.elim
      · rintro e u' (⟨er, -, hverdict, -⟩ | ⟨hwrites, -⟩)
        · rw [hverdict] at hpacket
          exact Or.inl (hstops.symm.trans hpacket)
        · exact Or.inr (Receive.not_acceptsWrites_of_fault hheard.fault hwrites)
    | stop =>
      obtain ⟨read, hread, heof⟩ := hheard.read
      refine ⟨⟨read ++ [.stop], by simp [hread], ?_⟩, hheard.unparted⟩
      simp [heof, ← hstops, stopsFirst]
    | idle => exact ⟨hheard.next nofun rfl (List.append_nil _).symm List.not_mem_nil, hstops⟩
    | readError e => exact Or.inl hstops.symm
    | eof =>
      simp only [Subscriber.listen, wp_bind]
      refine wp_awaitStop ?_ fun _ _ _ ↦ Or.inl hstops.symm
      intro _ u' hlog _ hsuffix
      obtain ⟨read, hread, -⟩ := hheard.read
      obtain ⟨later, hlater : later ++ u'.inbox = rest⟩ := hsuffix
      refine ⟨⟨read ++ .eof :: later, ?_, ?_⟩, ?_⟩
      · rw [hread, ← hlater]
        simp
      · simp [← hstops, stopsFirst]
      · show lastWritten u'.log ≠ _
        rw [hlog]
        exact hheard.unparted

/-- **Specification of a subscriber's run.** It never writes a DISCONNECT. -/
theorem wp_run_left (index : ℕ) (config : Config) (t : Timing) (w : Net) :
    wp (Subscriber.run index config t) (fun _ w' ↦ Left w (stopsOpen false w.inbox) w')
      (fun _ _ ↦ stopsOpen false w.inbox = false ∨ ¬w.AcceptsWrites) w := by
  unfold Subscriber.run
  simp only [wp_bind]
  refine wp_send _ ?_ fun _ hv ↦ Or.inr hv
  refine wp_react (fun xs stopped u ↦ u.inbox = xs ∧ Heard w xs u ∧
    stopsOpen stopped xs = stopsOpen false w.inbox) ?_ ?_
    ⟨rfl, ⟨⟨[], rfl, List.not_mem_nil⟩, rfl, ?_⟩, rfl⟩
  · rintro stopped u ⟨-, -, hstops⟩
    exact Or.inl hstops.symm
  · rintro x rest stopped u ⟨-, hheard, hstops⟩
    cases x with
    | packet p =>
      have hnext : Heard w rest (Net.read { u with inbox := rest } p) :=
        hheard.next nofun rfl rfl (by simp)
      simp only [awaitSubAck, wp_bind, wp_emit]
      cases p with
      | suback ack =>
        rcases hfind : ack.reasonCodes.find? ReasonCode.isError with - | code
        · have hgranted : ack.reasonCodes.any ReasonCode.isError = false := by
            simpa using hfind
          simp only [stopsOpen, hgranted, Bool.not_false, Bool.true_and] at hstops
          rw [← hstops]
          simp only [hfind, wp_pure, round_inr]
          cases stopped with
          | true =>
            obtain ⟨read, hread, heof⟩ := hnext.read
            exact ⟨⟨read, hread, iff_of_true heof rfl⟩, hnext.unparted⟩
          | false => exact wp_receive_left index t hnext
        · have hrefused : ack.reasonCodes.any ReasonCode.isError = true :=
            List.any_eq_true.2 ⟨code, List.mem_of_find?_eq_some hfind, List.find?_some hfind⟩
          simp only [hfind, wp_fail]
          refine Or.inl (hstops.symm.trans ?_)
          simp [stopsOpen, hrefused]
      | _ => exact ⟨rfl, hnext, hstops⟩
    | eof => exact Or.inl hstops.symm
    | readError e => exact Or.inl hstops.symm
    | stop =>
      exact ⟨rfl, hheard.next nofun rfl (List.append_nil _).symm List.not_mem_nil, hstops⟩
    | idle =>
      exact ⟨rfl, hheard.next nofun rfl (List.append_nil _).symm List.not_mem_nil, hstops⟩
  · rw [Net.wrote_log, lastWritten_append_sent]
    simp

/-- A subscriber that returns without a DISCONNECT on an open connection breaks the rule. -/
theorem Left.not_endsWithDisconnect {m : Command (List ℕ)} {samples : List ℕ} {w' : Net}
    (hrun : m w = .ok samples w') (hleft : Left w true w') : ¬EndsWithDisconnect m w := by
  intro hends
  obtain ⟨read, hread, heof⟩ := hleft.read
  exact hleft.unparted (hends samples w' read hrun hread (heof.2 rfl))

/-- A subscriber ends with a DISCONNECT, however its writes fare, exactly if the stop signal does
not end it with the connection open. -/
theorem subscriber_endsWithDisconnect_iff (index : ℕ) (config : Config) (t : Timing) (w : Net) :
    (∀ fault, EndsWithDisconnect (Subscriber.run index config t) (w.withFault fault)) ↔
      stopsOpen false w.inbox = false := by
  constructor
  · intro hends
    by_contra hstops
    rw [Bool.not_eq_false] at hstops
    have hwp := wp_run_left index config t (w.withFault fun _ ↦ none)
    have hinbox : (w.withFault fun _ ↦ none).inbox = w.inbox := rfl
    rw [hinbox, hstops] at hwp
    rcases hrun : Subscriber.run index config t (w.withFault fun _ ↦ none) with
      ⟨samples, w'⟩ | ⟨e, w'⟩
    · exact (hwp.of_ok hrun).not_endsWithDisconnect hrun (hends _)
    · rcases hwp.of_error hrun with hopen | hwrites
      · cases hopen
      · exact hwrites fun _ ↦ rfl
  · intro hstops fault samples w' read hrun hread heof
    obtain ⟨read', hread', heof'⟩ := ((wp_run_left index config t _).of_ok hrun).read
    obtain rfl : read = read' := List.append_cancel_right (hread.symm.trans hread')
    have hopen : stopsOpen false w.inbox = true := heof'.1 heof
    rw [hstops] at hopen
    cases hopen

end

/-! ### All five -/

/-- **Which runs end with DISCONNECT.** Whenever a run of `pub`, `sub` or `request` or of a
publisher returns success, with the connection open and no failed write, DISCONNECT is the last
packet it wrote. A subscriber's run meets this exactly if its stop signal does not find the
connection open. -/
theorem endsWithDisconnect_iff (index : ℕ) (config : Config) (t : Subscriber.Timing) (w : Net) :
    (∀ args v, EndsWithDisconnect (Publish.run args) v) ∧
      (∀ args v, EndsWithDisconnect (Subscribe.run args) v) ∧
      (∀ args v, EndsWithDisconnect (Request.run args) v) ∧
      (∀ c clock, Always (SoundStep c) (Publisher.initial c clock) fun s ↦ ∀ samples,
        s.phase = .returned (.ok samples) →
          s.written.getLast? = some (.disconnect .success)) ∧
      ((∀ fault, EndsWithDisconnect (Subscriber.run index config t) (w.withFault fault)) ↔
        stopsOpen false w.inbox = false) :=
  ⟨fun args ↦ (parts_publish args).endsWithDisconnect,
    fun args ↦ (parts_subscribe args).endsWithDisconnect,
    fun args ↦ (parts_request args).endsWithDisconnect, always_parted,
    subscriber_endsWithDisconnect_iff index config t w⟩

/-- A subscriber whose subscription is granted and whose run is then stopped drops an open
connection. -/
theorem not_endsWithDisconnect_stopped :
    ¬EndsWithDisconnect
      (Subscriber.run 0 { (Publisher.alone .atMostOnce (.count 1) 1).config with subscribers := 1 }
        ⟨0, 0, id⟩)
      (Net.connected 0 (fun _ ↦ none) [.packet (.suback ⟨1, [.success]⟩), .stop]) := by
  intro hends
  have hlast := hends [] _ [.packet (.suback ⟨1, [.success]⟩), .stop] rfl rfl (by decide)
  revert hlast
  decide

end Disconnect

end PulsemqCli
