import PulsemqCli.Library.Watchdog
import PulsemqCli.Bench.Subscriber
import PulsemqCli.Request

/-!
# The receive loops in real time

The loops of `sub` and `request` wait through `recv_keepalive`, whose timer starts afresh with
every call; the loop of a benchmark's subscriber waits without a timer. Here each of them is a
process that waits for timed arrivals, with the loop's own body for handling them. Times are in
nanoseconds, and processing takes none.

A client that advertised a keep-alive has to write something at least that often. The timer is not
enough for that: each packet that needs no reply restarts it. `Subscribe`'s, `Request`'s and the
benchmark's loops honour the keep-alive exactly if each of their waits is covered, by the timer or
by an arrival that makes them write or end.

The three loops become processes of the library on watchdogs. Their bodies are used as they are, and
handling an arrival is running the body on it; whether it wrote something is read off the log
(`wroteSince`). So the result is about the same code as everything else, with nothing but the
arrival times added.

What is passed over in silence is told by the manner of a loop. A wait is covered if it began soon
enough after the last write for its own timer to come in time, or if some packet that is replied to,
or ends the loop, arrives before the interval is over. The negative case needs no broker that
misbehaves: messages of QoS 0 at an even pace are enough.
-/

namespace PulsemqCli

namespace KeepAlive

open Reactive Protocol Client Receive Watchdog Transition
open Bench.Subscriber (Timing Listening listenOn)

variable {σ α : Type}

/-- What can come at a receive loop: every stimulus but the interval running out, which is the
loop's own. -/
abbrev Arrival := {x : Stimulus // x ≠ .idle}

/-- The arrivals during a loop: `written` is when the last packet before the loop was written, and
`begins` is when the loop begins. -/
structure Schedule where
  written : ℕ
  begins : ℕ
  arrivals : List (ℕ × Arrival)
  written_le : written ≤ begins
  sorted : arrivals.Pairwise fun a b ↦ a.1 ≤ b.1
  ahead : ∀ a ∈ arrivals, begins ≤ a.1

/-! ### A loop as a process

A loop's state as a process is its own variables together with the world of its connection. An
arrival is handled by one round of the body, and an expiry by a round on the stimulus that stands
for it. -/

/-- A packet was written from the first world to the second. -/
def wroteSince (w w' : Net) : Bool :=
  (w'.log.drop w.log.length).any fun
    | .sent _ => true
    | _ => false

/-- One round of a loop, with whether it wrote, unless the loop ended in it. -/
def round (body : σ → Stimulus → Command (σ ⊕ α)) (s : σ × Net) (x : Stimulus) :
    Option ((σ × Net) × Bool) :=
  match body s.1 x s.2 with
  | .ok (.inl s') w' => some ((s', w'), wroteSince s.2 w')
  | _ => none

/-- A loop as a process with a timer. The stop signal is listened to beside a read, and does not
restart it. -/
def process (body : σ → Stimulus → Command (σ ⊕ α)) (timer : Option ℕ) :
    Process (σ × Net) Arrival where
  handle s x := round body s x
  restarts x := x.1 ≠ .stop
  expire s := round body s .idle
  timer := timer

/-- The keep-alive in nanoseconds. -/
def interval (keepAlive : UInt16) : ℕ :=
  keepAlive.toNat * 1000000000

/-- How long `recv_keepalive` waits before it pings. -/
def half (keepAlive : UInt16) : ℕ :=
  keepAlive.toNat * 500000000

theorem half_add_half (keepAlive : UInt16) :
    half keepAlive + half keepAlive = interval keepAlive := by
  unfold half interval
  omega

/-- The timer of `recv_keepalive`, which is off with the keep-alive. -/
def pingEvery (keepAlive : UInt16) : Option ℕ :=
  if keepAlive = 0 then none else some (half keepAlive)

/-- The moment a loop begins. -/
def start (sched : Schedule) (s : σ) (w : Net) : Moment (σ × Net) Arrival where
  now := sched.begins
  written := sched.written
  since := sched.begins
  state := (s, w)
  arrivals := sched.arrivals

theorem timely_start (P : Process (σ × Net) Arrival) (sched : Schedule) (s : σ) (w : Net) :
    Timely P (start sched s w) where
  sorted := sched.sorted
  ahead := sched.ahead
  begun := le_rfl
  lasting _ _ := Nat.le_add_right _ _

/-! ### The loops -/

/-- The receive loop of `sub`, from the world its SUBSCRIBE left behind. -/
def subscribeLoop (showTopic : Bool) (limit : Option ℕ) (w : Net) : Process (ℕ × Net) Arrival :=
  process (fun seen ↦ recvKeepalive (Subscribe.onPacket showTopic limit seen) seen)
    (pingEvery w.store.keepAlive)

/-- The loop of `request` that waits for the replies. -/
def requestLoop (showTopic : Bool) (count : ℕ) (w : Net) : Process (ℕ × Net) Arrival :=
  process (fun seen ↦ recvKeepalive (Request.onPacket showTopic count seen) seen)
    (pingEvery w.store.keepAlive)

/-- The receive loop of a benchmark's subscriber. It has no timer. -/
def benchLoop (index : ℕ) (t : Timing) : Process (Listening × Net) Arrival :=
  process (listenOn index t) none

/-! ### What is passed over in silence -/

/-- The loop's variables after a packet that is not replied to and does not end the loop. -/
def silence (M : Manner σ) (s : σ) (p : Packet) : Option σ :=
  match M.reply p, M.verdict s p with
  | none, .again s' => some s'
  | _, _ => none

/-- The same for any arrival, at a loop over `recv_keepalive`. -/
def clientSilence (M : Manner σ) (s : σ) (x : Arrival) : Option σ :=
  match x.1 with
  | .packet p => silence M s p
  | .eof | .readError _ => none
  | _ => some s

/-- The same at a benchmark's subscriber. -/
def benchSilence (index : ℕ) (t : Timing) (s : Listening)
    (x : Arrival) : Option Listening :=
  match s, x.1 with
  | .reading s, .packet p => (silence (Bench.Subscriber.manner index t) s p).map .reading
  | .reading s, .eof => some (.closed s.samples)
  | _, .stop | .reading _, .readError _ => none
  | s, _ => some s

variable {M : Manner σ} {body : σ → Stimulus → Command (σ ⊕ α)} {timer : Option ℕ}

/-- An exchange writes exactly if the packet is replied to. -/
theorem wroteSince_of_exchange {p : Packet} {es : List Event} {w w' : Net}
    (hes : Exchange M p es) (hlog : w'.log = w.log ++ es) :
    wroteSince w w' = (M.reply p).isSome := by
  obtain ⟨b, a, hb, ha, rfl⟩ := hes
  have hnot : ∀ es : List Event, (∀ e ∈ es, Delivers e) →
      (es.any fun | .sent _ => true | _ => false) = false := by
    intro es hes
    refine List.any_eq_false.2 fun e he ↦ ?_
    have hdelivers : Delivers e := hes e he
    cases e <;> first | exact hdelivers.elim | exact Bool.false_ne_true
  have hb' := hnot b (M.before_delivers p b hb)
  have ha' := hnot a (M.after_delivers p a ha)
  rw [wroteSince, hlog, List.drop_left]
  rcases M.reply p with - | r <;> simp [hb', ha']

/-- A packet is passed over in silence as the loop's manner says. -/
theorem silent_packet (hbody : Follows M body) (s : σ) (w : Net) (p : Packet)
    (hp : Stimulus.packet p ≠ .idle) :
    ((process body timer).silent (s, w) ⟨.packet p, hp⟩).map Prod.fst = silence M s p := by
  have hpacket := hbody.packet s p w
  unfold wp at hpacket
  unfold Process.silent silence
  simp only [process, round]
  rcases hrun : body s (.packet p) w with ⟨s' | a, w'⟩ | ⟨e, w'⟩
  · obtain ⟨-, -, ⟨es, hes, hlog⟩, hverdict⟩ := by simpa only [hrun] using hpacket
    have hwrote := wroteSince_of_exchange hes hlog
    rcases hreply : M.reply p with - | r
    · rw [hreply] at hwrote
      simp [hwrote, hverdict]
    · rw [hreply] at hwrote
      simp [hwrote]
  · obtain ⟨-, -, -, hverdict⟩ := by simpa only [hrun] using hpacket
    rcases M.reply p with - | r <;> simp [hverdict]
  · rw [hrun] at hpacket
    rcases hpacket with ⟨er, -, hverdict, -⟩ | ⟨-, -, b, r, -, hreply, -⟩
    · rcases M.reply p with - | r <;> simp [hverdict]
    · simp [hreply]

/-- What a loop over `recv_keepalive` passes over in silence. -/
theorem silent_client {k : σ → Packet → Command (σ ⊕ α)}
    (hbody : Follows M fun s ↦ recvKeepalive (k s) s) (s : σ × Net) (x : Arrival) :
    ((process (fun s ↦ recvKeepalive (k s) s) timer).silent s x).map Prod.fst =
      clientSilence M s.1 x := by
  obtain ⟨s, w⟩ := s
  obtain ⟨x, hx⟩ := x
  cases x with
  | packet p => exact silent_packet hbody s w p hx
  | idle => exact absurd rfl hx
  | stop =>
    have hwrote : wroteSince w w = false := by simp [wroteSince]
    show (Process.silent _ _ _).map Prod.fst = some s
    have hround : some ((s, w), wroteSince w w) = some ((s, w), false) := by rw [hwrote]
    rw [silent_eq_some.2 (show Process.handle _ (s, w) _ = some ((s, w), false) from hround)]
    rfl
  | eof | readError e => rfl

/-- When the interval runs out, a loop over `recv_keepalive` writes, or ends. -/
theorem expire_client {k : σ → Packet → Command (σ ⊕ α)} {s s' : σ} {w w' : Net} {wrote : Bool}
    (h : w.store.keepAlive ≠ 0)
    (hexpire : (process (fun s ↦ recvKeepalive (k s) s) timer).expire (s, w) =
      some ((s', w'), wrote)) :
    wrote = true ∧ w'.store.keepAlive = w.store.keepAlive := by
  have hwp : wp (recvKeepalive (k s) s .idle) (fun _ v ↦ v = w.wrote .pingreq)
      (fun _ _ ↦ True) w := by
    simp only [recvKeepalive, wp_bind, wp_load, if_pos h]
    exact wp_send _ rfl fun _ _ ↦ trivial
  have hround : round (fun s ↦ recvKeepalive (k s) s) (s, w) .idle = some ((s', w'), wrote) :=
    hexpire
  unfold round at hround
  split at hround
  next s'' v hrun =>
    obtain rfl : v = w.wrote .pingreq := hwp.of_ok hrun
    simp only [Option.some.injEq, Prod.mk.injEq] at hround
    obtain ⟨⟨-, rfl⟩, rfl⟩ := hround
    exact ⟨by simp [wroteSince], rfl⟩
  next => cases hround

/-! ### The subscriber's loop -/

section Bench

variable (index : ℕ) (t : Timing)

/-- What the subscriber's loop passes over in silence. -/
theorem silent_bench (s : Listening × Net) (x : Arrival) :
    ((benchLoop index t).silent s x).map Prod.fst = benchSilence index t s.1 x := by
  obtain ⟨s, w⟩ := s
  obtain ⟨x, hx⟩ := x
  have hwrote : wroteSince w w = false := by simp [wroteSince]
  rcases s with s | samples
  · cases x with
    | packet p =>
      have hsilent : ((process (Bench.Subscriber.listen index t) none).silent (s, w)
          ⟨.packet p, hx⟩).map Prod.fst = _ :=
        silent_packet (Bench.Subscriber.follows_receive index t) s w p hx
      show _ = (silence _ s p).map Listening.reading
      rw [← hsilent]
      simp only [Process.silent, benchLoop, process, round, listenOn, bind, EStateM.bind]
      rcases Bench.Subscriber.listen index t s (.packet p) w with ⟨s' | a, w'⟩ | ⟨e, w'⟩
      · rcases h : wroteSince w w' <;> simp [h, pure, EStateM.pure]
      · rfl
      · rfl
    | idle => exact absurd rfl hx
    | eof =>
      show (Process.silent _ _ _).map Prod.fst = some (Listening.closed s.samples)
      have hround : round (listenOn index t) (.reading s, w) .eof =
          some ((.closed s.samples, w), false) := by
        show some ((Listening.closed s.samples, w), wroteSince w w) = some (_, false)
        rw [hwrote]
      rw [silent_eq_some.2 (show Process.handle _ (Listening.reading s, w) _ = _ from hround)]
      rfl
    | stop | readError e => rfl
  · by_cases hstop : x = .stop
    · subst hstop
      rfl
    · have hsilence : benchSilence index t (.closed samples) ⟨x, hx⟩ = some (.closed samples) := by
        cases x with
        | stop => exact absurd rfl hstop
        | _ => rfl
      have hround : round (listenOn index t) (.closed samples, w) x =
          some ((.closed samples, w), false) := by
        rw [round, Bench.Subscriber.listenOn_closed index t samples hstop]
        show some ((Listening.closed samples, w), wroteSince w w) = some (_, false)
        rw [hwrote]
      rw [hsilence, silent_eq_some.2
        (show Process.handle _ (Listening.closed samples, w) _ = _ from hround)]
      rfl

end Bench

/-! ### The keep-alive

A client that advertised a keep-alive of 0 has promised nothing, and is left out. The condition is
on every wait of every run, and the schedule of the arrivals is arbitrary. -/

/-- From the last packet written to any moment the loop still waits, and so from one packet
written to the next, it is never longer than the keep-alive. -/
def Honours (P : Process (σ × Net) Arrival) (keepAlive : UInt16)
    (m : Moment (σ × Net) Arrival) : Prop :=
  Always (Step P) m fun m' ↦ m'.now ≤ m'.written + interval keepAlive

/-- Within the keep-alive of the last write, an arrival comes that is not passed over in
silence. -/
def Answers (silence : σ → Arrival → Option σ) (keepAlive : UInt16)
    (m : Moment (σ × Net) Arrival) : Prop :=
  ∃ t ∈ firstAnswer silence m.state.1 m.arrivals, t ≤ m.written + interval keepAlive

/-- A loop honours the keep-alive exactly if its waits are covered, by the timer or an answer. -/
theorem honours_iff_covered {P : Process (σ × Net) Arrival} {silence : σ → Arrival → Option σ}
    (hsilent : ∀ s x, (P.silent s x).map Prod.fst = silence s.1 x) (keepAlive : UInt16)
    (sched : Schedule) (s : σ) (w : Net) :
    Honours P keepAlive (start sched s w) ↔ Always (Step P) (start sched s w) fun m ↦
      (∃ d ∈ P.timer, m.since + d ≤ m.written + interval keepAlive) ∨
        Answers silence keepAlive m := by
  refine (within_iff_covered (timely_start P sched s w)).trans (forall₂_congr fun m _ ↦ ?_)
  rw [Covered, firstAnswer_map Prod.fst hsilent]
  rfl

/-- The same for a loop over `recv_keepalive`, whose timer covers a wait that began within half
the keep-alive of the last write. -/
theorem honours_client_iff {k : σ → Packet → Command (σ ⊕ α)} {w : Net}
    (hbody : Follows M fun s ↦ recvKeepalive (k s) s) (h : w.store.keepAlive ≠ 0)
    (sched : Schedule) (s : σ) :
    Honours (process (fun s ↦ recvKeepalive (k s) s) (pingEvery w.store.keepAlive))
      w.store.keepAlive (start sched s w) ↔
    Always (Step (process (fun s ↦ recvKeepalive (k s) s) (pingEvery w.store.keepAlive)))
      (start sched s w) fun m ↦ m.since ≤ m.written + half w.store.keepAlive ∨
        Answers (clientSilence M) w.store.keepAlive m := by
  refine (honours_iff_covered (silent_client hbody) _ sched s w).trans (forall₂_congr fun m _ ↦ ?_)
  have hhalf := half_add_half w.store.keepAlive
  refine or_congr_left ⟨?_, fun hle ↦ ⟨half w.store.keepAlive, if_neg h, by omega⟩⟩
  rintro ⟨d, hd, hle⟩
  obtain rfl : half w.store.keepAlive = d := Option.some.inj ((if_neg h).symm.trans hd)
  omega

/-- **A loop honours the keep-alive exactly if, whenever it waits, the wait began within half the
keep-alive of the last write, or an arrival that needs a reply or ends the loop comes within the
keep-alive of it.** The benchmark's subscriber never pings, and needs the arrival. -/
theorem honours_iff (w : Net) (h : w.store.keepAlive ≠ 0) (sched : Schedule) :
    (∀ showTopic limit,
      Honours (subscribeLoop showTopic limit w) w.store.keepAlive (start sched 0 w) ↔
      Always (Step (subscribeLoop showTopic limit w)) (start sched 0 w) fun m ↦
        m.since ≤ m.written + half w.store.keepAlive ∨
          Answers (clientSilence (Subscribe.manner showTopic limit)) w.store.keepAlive m) ∧
    (∀ showTopic count,
      Honours (requestLoop showTopic count w) w.store.keepAlive (start sched 0 w) ↔
      Always (Step (requestLoop showTopic count w)) (start sched 0 w) fun m ↦
        m.since ≤ m.written + half w.store.keepAlive ∨
          Answers (clientSilence (Request.manner showTopic count)) w.store.keepAlive m) ∧
    ∀ index t,
      Honours (benchLoop index t) w.store.keepAlive (start sched (.reading ⟨0, []⟩) w) ↔
      Always (Step (benchLoop index t)) (start sched (.reading ⟨0, []⟩) w)
        (Answers (benchSilence index t) w.store.keepAlive) := by
  refine ⟨fun showTopic limit ↦ ?_, fun showTopic count ↦ ?_, fun index t ↦ ?_⟩
  · exact honours_client_iff (Subscribe.follows_receive showTopic limit) h sched 0
  · exact honours_client_iff (Request.follows_awaitReplies showTopic count) h sched 0
  · refine (honours_iff_covered (silent_bench index t) _ sched _ w).trans
      (forall₂_congr fun m _ ↦ ?_)
    exact or_iff_right fun ⟨d, hd, _⟩ ↦ nomatch hd

/-- A QoS 0 message, which needs no reply. -/
def tick : Publish where
  dup := false
  qos := .atMostOnce
  retain := false
  topic := "t"
  packetId := none
  properties := {}
  payload := []

/-- Messages of QoS 0 after 25 and 50 seconds. -/
def steady : Schedule where
  written := 0
  begins := 0
  arrivals := [(25000000000, ⟨.packet (.publish tick), nofun⟩),
    (50000000000, ⟨.packet (.publish tick), nofun⟩)]
  written_le := le_rfl
  sorted := by decide
  ahead := by decide

/-- No arrivals. -/
def idle : Schedule where
  written := 0
  begins := 0
  arrivals := []
  written_le := le_rfl
  sorted := .nil
  ahead := by decide

/-- A connection with a keep-alive of a minute. -/
def minute : Net :=
  .connected 60 (fun _ ↦ none) []

/-- A message of QoS 1 after 20 seconds, which is acknowledged, and one of QoS 0 after 35, which is
passed over in silence. -/
def mixed : Schedule where
  written := 0
  begins := 0
  arrivals := [(20000000000, ⟨.packet (.publish { tick with
      qos := .atLeastOnce
      packetId := some 1 }), nofun⟩),
    (35000000000, ⟨.packet (.publish tick), nofun⟩)]
  written_le := le_rfl
  sorted := by decide
  ahead := by decide

/-- The wait that begins after 35 seconds begins within 30 seconds of the acknowledgement, and ends
with a ping. -/
theorem honours_iff_mixed :
    firstAnswer (clientSilence (Subscribe.manner false none)) 0 mixed.arrivals =
      some 20000000000 ∧
    Honours (subscribeLoop false none minute) 60 (start mixed 0 minute) := by
  refine ⟨rfl, ((honours_iff minute (by decide) mixed).1 false none).2 ?_⟩
  obtain ⟨s₁, s₂, h₁, h₂, hkeep₁, hkeep₂⟩ : ∃ s₁ s₂,
      (subscribeLoop false none minute).handle (0, minute) ⟨.packet (.publish { tick with
        qos := .atLeastOnce
        packetId := some 1 }), nofun⟩ = some (s₁, true) ∧
      (subscribeLoop false none minute).handle s₁ ⟨.packet (.publish tick), nofun⟩ =
        some (s₂, false) ∧ s₁.2.store.keepAlive ≠ 0 ∧ s₂.2.store.keepAlive ≠ 0 :=
    ⟨_, _, rfl, rfl, by decide, by decide⟩
  -- Before both arrivals, between them, and after them.
  have hinvariant : Always (Step (subscribeLoop false none minute)) (start mixed 0 minute)
      fun m ↦ (m.state = (0, minute) ∧ m.arrivals = mixed.arrivals ∧ m.since = m.written ∧
          m.written = 0) ∨
        (m.state = s₁ ∧ m.arrivals = mixed.arrivals.tail ∧ m.since = m.written ∧
          m.written = 20000000000) ∨
        m.state.2.store.keepAlive ≠ 0 ∧ m.arrivals = [] ∧ m.since ≤ m.written + half 60 := by
    refine always_of_invariant (.inl ⟨rfl, rfl, rfl, rfl⟩) ?_
    rintro m m' hm hstep
    cases hstep with
    | wait t hnow hahead hlasting => exact hm
    | arrive x rest s wrote harr hhandle =>
      rcases hm with ⟨hstate, harrivals, -, -⟩ | ⟨hstate, harrivals, -, hwritten⟩ |
        ⟨-, harrivals, -⟩
      · obtain ⟨hfirst, rfl⟩ := List.cons.inj (harr.symm.trans harrivals)
        obtain ⟨hnow, rfl⟩ := Prod.mk.inj hfirst
        rw [hstate, h₁] at hhandle
        cases hhandle
        exact .inr (.inl ⟨rfl, rfl, rfl, hnow⟩)
      · obtain ⟨hfirst, rfl⟩ := List.cons.inj (harr.symm.trans harrivals)
        obtain ⟨hnow, rfl⟩ := Prod.mk.inj hfirst
        rw [hstate, h₂] at hhandle
        cases hhandle
        refine .inr (.inr ⟨hkeep₂, rfl, ?_⟩)
        show m.now ≤ m.written + half 60
        rw [hnow, hwritten]
        decide
      · cases harr.symm.trans harrivals
    | expire d s wrote htimer hnow hahead hexpire =>
      have hd : half 60 = d := Option.some.inj htimer
      rcases hm with ⟨-, harrivals, hsince, hwritten⟩ | ⟨-, harrivals, hsince, hwritten⟩ |
        ⟨hkeepAlive, harrivals, -⟩
      · have hlate : m.now < 20000000000 := by
          rw [harrivals] at hahead
          exact hahead (20000000000, _) List.mem_cons_self
        rw [hnow, hsince, hwritten, ← hd] at hlate
        exact absurd hlate (by decide)
      · have hlate : m.now < 35000000000 := by
          rw [harrivals] at hahead
          exact hahead (35000000000, _) List.mem_cons_self
        rw [hnow, hsince, hwritten, ← hd] at hlate
        exact absurd hlate (by decide)
      · obtain ⟨rfl, hkeep⟩ := expire_client hkeepAlive hexpire
        exact .inr (.inr ⟨hkeep ▸ hkeepAlive, harrivals, Nat.le_add_right _ _⟩)
  refine hinvariant.mono fun m hm ↦ Or.inl ?_
  rcases hm with ⟨-, -, hsince, -⟩ | ⟨-, -, hsince, -⟩ | ⟨-, -, hsince⟩
  · exact hsince.trans_le (Nat.le_add_right _ _)
  · exact hsince.trans_le (Nat.le_add_right _ _)
  · exact hsince

/-- Messages of QoS 0 at 25 and 50 seconds put the ping off to 80 seconds, past a keep-alive of 60;
and a benchmark's subscriber to which nothing is sent never pings. -/
theorem not_honours_steady :
    ¬Honours (subscribeLoop false none minute) 60 (start steady 0 minute) ∧
      ¬Honours (benchLoop 0 ⟨0, 0, fun _ ↦ 0⟩) 60 (start idle (.reading ⟨0, []⟩) minute) := by
  constructor
  · refine not_always_of_can ?_
    -- The interval of 30 seconds begins at 0, at 25 and at 50 seconds.
    refine .of_step (.wait _ 25000000000 ?_ ?_ ?_) ?_
    · decide
    · decide
    · decide
    refine .of_step (.arrive _ _ _ _ false rfl rfl) ?_
    refine .of_step (.wait _ 50000000000 ?_ ?_ ?_) ?_
    · decide
    · decide
    · decide
    refine .of_step (.arrive _ _ _ _ false rfl rfl) ?_
    refine .of_step (.wait _ 61000000000 ?_ ?_ ?_) (.here ?_)
    · decide
    · decide
    · decide
    · decide
  · refine not_always_of_can (.of_step (.wait _ 61000000000 ?_ ?_ ?_) (.here ?_))
    · decide
    · decide
    · decide
    · decide

end KeepAlive

end PulsemqCli
