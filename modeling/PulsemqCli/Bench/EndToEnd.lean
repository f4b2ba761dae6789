import PulsemqCli.Bench.Latency
import PulsemqCli.Bench.Publisher.Headers
import PulsemqCli.Bench.Readiness
import PulsemqCli.Bench.Report

/-!
# End-to-end samples of a run

Whether end-to-end latency is measured is decided by the configuration: it needs a subscriber, and
a payload the header fits in. But `payload::build` makes a payload long enough for the header, and
a subscriber times every message with one. So the messages of a run are timed whatever payload size
is configured, and what decides is whether they were sent in the warmup.

`Forwards` restricts the runs to those whose broker delivers messages of the run and nothing else;
without it a subscriber could hear a foreign payload that happens to have a header. The restriction
is on what is heard, and not on when, in which order, or how often.

The claim is then taken apart into what a step does. A subscriber `Records` a sample where it hears
a message with a header that is dated after the warmup; a run measures nothing exactly if no step
records (`neverMeasured_iff_neverSteps`); and because all messages of the run are dated by the clock
they were built at (`AllDated`), a step records exactly if it hears a late one.

Whether a run hears a late message is up to the configuration alone. If nothing is to be sent or the
warmup outlasts the clock, none can be heard. Otherwise there is a run: the first publisher waits
until the warmup is over, sends a message, and the broker forwards it at once (`not_neverSteps`).
-/

namespace PulsemqCli

namespace Bench

namespace Run

open Protocol Client Reactive Transition

variable {r : Setting} {s s' t : State r} {a : Act r} {allowed : State r → Act r → Prop}

/-! ### What is measured -/

/-- A broker forwards messages unchanged: a subscriber hears only what a publisher wrote. -/
def Forwards (s : State r) : Act r → Prop
  | .subscriber _ (.hear (.packet (.publish m))) =>
    ∃ i c p q, s.publishers i = .running c p ∧ .publish q ∈ p.written ∧ m.topic = q.topic ∧
      m.payload = q.payload
  | _ => True

/-- A subscriber hears a message, of the given payload, in its receive loop. -/
inductive Hears (s : State r) : Act r → List UInt8 → Prop where
  | message {j : Fin r.config.subscribers} {v : Subscriber.Received} {w : Net}
      {m : Protocol.Publish} : s.subscribers j = .receiving (.reading v) w →
      Hears s (.subscriber j (.hear (.packet (.publish m)))) m.payload

/-- The instants every subscriber of the run measures against. -/
def timing (s : State r) : Subscriber.Timing :=
  ⟨r.baseline, r.warmupUntil, fun _ ↦ s.clock⟩

/-- A subscriber records an end-to-end sample. -/
def Records (s : State r) (a : Act r) : Prop :=
  ∃ payload, Hears s a payload ∧ ∃ n, Subscriber.sampleOf (timing s) s.clock payload = some n

/-- A subscriber hears a message that was sent when the warmup was over, by its header. -/
def HearsLate (s : State r) (a : Act r) : Prop :=
  ∃ payload, Hears s a payload ∧ ∃ header, Payload.decode payload = some header ∧
    Subscriber.Representable (r.baseline + header.elapsedNs.toNat) ∧
    r.config.warmup ≤ header.elapsedNs.toNat

/-- In no run of allowed acts does the property hold of a step. -/
def NeverSteps (allowed happens : State r → Act r → Prop) : Prop :=
  ∀ s a s', Reaches (AllowedStep allowed) (initial r) s → allowed s a → step s a = some s' →
    ¬happens s a

/-- In no run of allowed acts is an end-to-end sample recorded, and in none is one reported. -/
def NeverMeasured (allowed : State r → Act r → Prop) : Prop :=
  NeverSteps allowed Records ∧
    ∀ s, Reaches (AllowedStep allowed) (initial r) s → s.main = .reported →
      ∀ display, (s.report display).endToEnd = none

/-! ### Without a sample there is nothing to report

A subscriber that has recorded no sample returns none, and the merged samples of such tasks have no
summary. The converse holds step by step. -/

/-- The task has recorded no sample. -/
def SubscriberTask.Untimed : SubscriberTask → Prop
  | .receiving l _ => l.samples = []
  | .ended (.ok samples) => samples = []
  | _ => True

/-- At its loop's top a subscriber records nothing. -/
theorem SubscriberTask.untimed_loopTop {stop : Bool} {l : Subscriber.Listening} {w : Net}
    (h : l.samples = []) : (loopTop stop l w).Untimed := by
  unfold loopTop
  split
  · exact h
  · exact h

/-- A round of the receive loop that times no message. -/
theorem wp_listenOn_untimed {index : ℕ} {timing : Subscriber.Timing} {l : Subscriber.Listening}
    {x : Stimulus} {w : Net} (h : l.samples = [])
    (hx : ∀ v m, l = .reading v → x = .packet (.publish m) →
      Subscriber.sampleOf timing (timing.clock v.messages) m.payload = none) :
    wp (Subscriber.listenOn index timing l x)
      (fun | .inl l', _ => l'.samples = [] | .inr samples, _ => samples = [])
      (fun _ _ ↦ True) w := by
  have hfollows := Subscriber.follows_receive index timing
  cases l with
  | reading v =>
    cases x with
    | packet p =>
      simp only [Subscriber.listenOn, wp_bind]
      refine (hfollows.packet v p w).mono ?_ fun _ _ _ ↦ trivial
      rintro (v' | samples) w' ⟨-, -, -, hverdict⟩
      · show v'.samples = []
        cases p with
        | publish m =>
          obtain rfl := Receive.Verdict.again.inj hverdict
          show v.samples ++ _ = []
          rw [hx v m rfl rfl]
          exact (List.append_nil _).trans h
        | disconnect => cases hverdict
        | _ => exact Receive.Verdict.again.inj hverdict ▸ h
      · cases p <;> cases hverdict
    | stop | idle | eof => exact h
    | readError e => exact trivial
  | closed samples =>
    by_cases hx : x = .stop
    · subst hx
      exact h
    · rw [Subscriber.listenOn_closed index timing samples hx]
      exact h

/-- A task that hears no message worth timing stays untimed. -/
theorem SubscriberTask.Untimed.of_step {index : UInt32} {clock : ℕ} {stop : Bool}
    {t t' : SubscriberTask} {b : SubscriberAct} (h : t.Untimed)
    (hstep : step r index clock stop t b = some t')
    (hx : ∀ v w m, t = .receiving (.reading v) w → b = .hear (.packet (.publish m)) →
      Subscriber.sampleOf ⟨r.baseline, r.warmupUntil, fun _ ↦ clock⟩ clock m.payload = none) :
    t'.Untimed := by
  unfold step at hstep
  split at hstep
  · cases hstep
    trivial
  · cases hstep
    trivial
  next w =>
    exact of_proceed (k := fun _ ↦ .awaiting) hstep
      ((logs_send _ w).mono (fun _ _ _ ↦ trivial) fun _ _ _ ↦ trivial) fun _ ↦ trivial
  next w x =>
    split at hstep
    · cases hstep
    · refine of_proceed hstep
        ((logs_awaitSubAck _ _ x w).mono ?_ fun _ _ _ ↦ trivial) fun _ ↦ trivial
      rintro (_ | stopped) w' -
      · trivial
      · exact untimed_loopTop rfl
  next l w x =>
    split at hstep
    · cases hstep
    · refine of_proceed hstep ((wp_listenOn_untimed h fun v m hl hx' ↦ ?_).mono ?_
        fun _ _ _ ↦ trivial) fun _ ↦ trivial
      · exact hx v w m (congrArg (SubscriberTask.receiving · w) hl) (congrArg _ hx')
      · rintro (l' | samples) w' hsamples
        · exact untimed_loopTop hsamples
        · exact hsamples
  · cases hstep

/-- While no sample is recorded, all subscribers stay untimed. -/
theorem always_untimed (h : NeverSteps allowed Records) :
    Always (AllowedStep allowed) (initial r) fun s ↦ ∀ j, (s.subscribers j).Untimed := by
  intro s hs
  induction hs with
  | refl => exact fun _ ↦ trivial
  | @tail u s' hs hstep ih =>
    intro j
    obtain ⟨a, hallowed, ha⟩ := hstep
    rcases subscriber_of_step ha j with hj | ⟨b, rfl, hb⟩
    · rw [hj]
      exact ih j
    · refine (ih j).of_step hb fun v w m htask hbm ↦ ?_
      subst hbm
      by_contra hsample
      obtain ⟨n, hn⟩ := Option.ne_none_iff_exists'.1 hsample
      exact h u _ s' hs hallowed ha ⟨m.payload, .message htask, n, hn⟩

/-- Untimed subscribers leave nothing to summarize. -/
theorem endToEnd_eq_none (h : ∀ j, (s.subscribers j).Untimed) (display : Error → String) :
    (s.report display).endToEnd = none := by
  refine Samples.summary_eq_none.2 (joinTasks_values fun samples hmem ↦ ?_)
  obtain ⟨j, hj⟩ := List.mem_ofFn.1 hmem
  have hu := h j
  cases htask : s.subscribers j with
  | ended result =>
    rw [htask] at hj hu
    cases result with
    | ok samples' =>
      obtain rfl := Except.ok.inj hj
      exact hu
    | error e => cases hj
  | _ =>
    rw [htask] at hj
    exact (Except.ok.inj hj).symm

/-- **Nothing is measured where no sample is recorded.** -/
theorem neverMeasured_iff_neverSteps :
    NeverMeasured allowed ↔ NeverSteps allowed (Records (r := r)) :=
  ⟨fun h ↦ h.1, fun h ↦ ⟨h, fun s hs _ ↦ endToEnd_eq_none (always_untimed h s hs)⟩⟩

/-! ### What is recorded

The time in a header is a `u64`, and adding it to the baseline is checked against the range of the
clock. A message whose time does not fit is not recorded, or is recorded as if it were another;
`HearsLate` reads the header the way the code does. -/

/-- What the task's publisher has built is dated, on the run's clock. -/
def PublisherTask.Dated (r : Setting) (clock : ℕ) : PublisherTask → Prop
  | .running c p => c.baseline = r.baseline ∧ p.clock = clock ∧ Publisher.Dated c p
  | _ => True

/-- The baseline is past, and what the publishers have built is dated. -/
structure AllDated (s : State r) : Prop where
  baseline : r.baseline ≤ s.clock
  tasks : ∀ i, (s.publishers i).Dated r s.clock

/-- The clock of a run does not go back. -/
theorem clock_le_of_step (h : Step s s') : s.clock ≤ s'.clock := by
  cases move_of_step h with
  | tick nanos => exact Nat.le_add_right _ _
  | _ => exact le_rfl

/-- A message that is built is dated by the clock, and no later step changes its header. -/
theorem AllDated.step (h : AllDated s) (hstep : Step s s') : AllDated s' := by
  refine ⟨h.baseline.trans (clock_le_of_step hstep), fun i ↦ ?_⟩
  have hi := h.tasks i
  obtain ⟨a, ha⟩ := hstep
  cases passage_of_step ha i with
  | rests nanos stop hpassed _ htask =>
    rw [htask, hpassed]
    rcases hbefore : s.publishers i with - | - | e | ⟨c, p⟩
    all_goals first | trivial | skip
    rw [hbefore] at hi
    obtain ⟨hbaseline, hclock, hdated⟩ := hi
    have hlater := hdated.step (a := .tick nanos) rfl
    exact ⟨hbaseline, congrArg (· + nanos) hclock, hlater.baseline, hlater.unwritten,
      hlater.written⟩
  | spawned _ _ htask | refused _ _ _ htask =>
    rw [htask]
    trivial
  | connected receiveMaximum hclock _ htask =>
    rw [htask]
    exact ⟨rfl, hclock.symm, Publisher.dated_initial h.baseline _⟩
  | @runs c p p' b _ hown hclock _ hbefore hruns htask =>
    rw [hbefore] at hi
    obtain ⟨hbaseline, hsame, hdated⟩ := hi
    rw [htask, hclock]
    refine ⟨hbaseline, ?_, hdated.step hruns⟩
    refine (Publisher.clock_of_step hruns ?_).trans hsame
    rintro nanos rfl
    cases hown
  | panics _ hclock _ hbefore hpanic htask =>
    rw [hbefore] at hi
    obtain ⟨hbaseline, hsame, hdated⟩ := hi
    rw [htask, hclock]
    refine ⟨hbaseline, ?_, hdated.panic hpanic⟩
    obtain ⟨-, permits, rfl⟩ := Publisher.panic_eq hpanic
    exact hsame

/-- All messages of a run are dated, at every moment. -/
theorem always_dated (r : Setting) : Always Step (initial r) AllDated :=
  always_of_invariant ⟨le_rfl, fun _ ↦ trivial⟩ fun _ _ h hstep ↦ h.step hstep

/-- What a subscriber hears of the run is dated. -/
theorem AllDated.heard (h : AllDated s) (hforwards : Forwards s a) {payload : List UInt8}
    (hhears : Hears s a payload) :
    ∃ header, Payload.decode payload = some header ∧
      r.baseline + header.elapsedNs.toNat ≤ s.clock := by
  cases hhears with
  | message =>
    obtain ⟨i, c, p, q, hi, hq, -, hpayload⟩ := hforwards
    have htask := h.tasks i
    rw [hi] at htask
    obtain ⟨hbaseline, hclock, hdated⟩ := htask
    rw [hpayload, ← hbaseline, ← hclock]
    exact hdated.written q hq

/-- What is recorded is heard late. -/
theorem Records.hearsLate (h : Records s a) : HearsLate s a := by
  obtain ⟨payload, hhears, hsample⟩ := h
  obtain ⟨header, hdecode, hinstant, hwarm, -⟩ := Subscriber.exists_sampleOf_iff.1 hsample
  exact ⟨payload, hhears, header, hdecode, hinstant, Nat.le_of_add_le_add_left hwarm⟩

/-- **A subscriber times a message of the run exactly if it was sent when the warmup was over.** -/
theorem AllDated.records_iff (h : AllDated s) (hforwards : Forwards s a) :
    Records s a ↔ HearsLate s a := by
  refine ⟨Records.hearsLate, ?_⟩
  rintro ⟨payload, hhears, header, hdecode, hinstant, hwarm⟩
  obtain ⟨header', hdecode', hpast⟩ := h.heard hforwards hhears
  obtain rfl := Option.some.inj (hdecode.symm.trans hdecode')
  exact ⟨payload, hhears, Subscriber.exists_sampleOf_iff.2
    ⟨header, hdecode, hinstant, Nat.add_le_add_left hwarm _, hpast⟩⟩

/-- Nothing is measured in exactly those runs in which no late message is heard. -/
theorem neverMeasured_iff_of_forwards
    (hforwards : ∀ (s : State r) a, allowed s a → Forwards s a) :
    NeverMeasured allowed ↔ NeverSteps allowed HearsLate := by
  rw [neverMeasured_iff_neverSteps]
  have hiff : ∀ s a, Reaches (AllowedStep allowed) (initial r) s → allowed s a →
      (Records s a ↔ HearsLate s a) := fun s a hs hallowed ↦
    (always_dated r s (reaches_of_allowed hs)).records_iff (hforwards s a hallowed)
  exact ⟨fun h s a s' hs hallowed ha hlate ↦
      h s a s' hs hallowed ha ((hiff s a hs hallowed).2 hlate),
    fun h s a s' hs hallowed ha hrecords ↦
      h s a s' hs hallowed ha ((hiff s a hs hallowed).1 hrecords)⟩

/-! ### Runs in which something is measured

The subscriber is taken to its receive loop first, then the publisher to its first message after the
warmup. Each is a run of one task, with the others at rest. -/

section Scenario

variable {j : Fin r.config.subscribers}

/-- The run with the task of the subscriber `j` replaced. -/
def withTask (s : State r) (j : Fin r.config.subscribers) (task : SubscriberTask) : State r :=
  { s with subscribers := Function.update s.subscribers j task }

/-- A step of one subscriber is a step of the run. -/
theorem step_withTask {task task' : SubscriberTask} {b : SubscriberAct}
    (h : task.step r (.ofNat j) s.clock s.stop b = some task') :
    step (withTask s j task) (.subscriber j b) = some (withTask s j task') := by
  have hself : (withTask s j task).subscribers j = task := Function.update_self j _ _
  have htask : ((withTask s j task).subscribers j).step r (.ofNat j) (withTask s j task).clock
      (withTask s j task).stop b = some task' := by
    rw [hself]
    exact h
  rw [step, htask]
  simp only [Option.map_some, withTask, Function.update_idem]

/-- A subscriber that is still connecting can get to its receive loop. -/
theorem reaches_listening (hs : s.subscribers j = .connecting) (hstop : s.stop = false) :
    ∃ w : Net, w.AcceptsWrites ∧ Reaches (AllowedStep Forwards) s
      (withTask s j (.receiving (.reading ⟨0, []⟩) w)) := by
  let w₀ := Net.connected 0 (fun _ ↦ none) []
  let w₁ := w₀.wrote (.subscribe (Subscriber.subscribePacket r.config))
  let w₂ := w₁.read (.suback ⟨1, [.success]⟩)
  have hconnected : SubscriberTask.step r (.ofNat j) s.clock s.stop .connecting
      (.connected 0 fun _ ↦ none) = some (.subscribing w₀) := rfl
  have hsubscribed : SubscriberTask.step r (.ofNat j) s.clock s.stop (.subscribing w₀)
      .subscribe = some (.awaiting w₁) := rfl
  have hgranted : SubscriberTask.step r (.ofNat j) s.clock s.stop (.awaiting w₁)
      (.hear (.packet (.suback ⟨1, [.success]⟩))) =
        some (.receiving (.reading ⟨0, []⟩) w₂) := by
    rw [hstop]
    rfl
  have hself : withTask s j .connecting = s := by
    rw [withTask, ← hs, Function.update_eq_self]
  have hfirst := step_withTask hconnected
  rw [hself] at hfirst
  have hthird : AllowedStep Forwards (withTask s j (.awaiting w₁))
      (withTask s j (.receiving (.reading ⟨0, []⟩) w₂)) :=
    ⟨.subscriber j (.hear (.packet (.suback ⟨1, [.success]⟩))), trivial, step_withTask hgranted⟩
  exact ⟨w₂, fun _ ↦ rfl, .head ⟨.subscriber j (.connected 0 fun _ ↦ none), trivial, hfirst⟩
    (.head ⟨.subscriber j .subscribe, trivial, step_withTask hsubscribed⟩ (.single hthird))⟩

/-- In its receive loop a subscriber can hear any message. -/
theorem exists_step_hear {v : Subscriber.Received} {w : Net} (m : Protocol.Publish)
    (hs : s.subscribers j = .receiving (.reading v) w) (hw : w.AcceptsWrites) :
    ∃ s', step s (.subscriber j (.hear (.packet (.publish m)))) = some s' := by
  have hround : wp (Subscriber.listenOn (UInt32.ofNat j).toNat (timing s) (.reading v)
      (.packet (.publish m))) (fun _ _ ↦ True) (fun _ _ ↦ False) w := by
    simp only [Subscriber.listenOn, wp_bind]
    refine ((Subscriber.follows_receive _ _).packet v (.publish m) w).mono ?_ ?_
    · rintro (v' | samples) w' -
      · exact trivial
      · exact trivial
    · rintro e w' (⟨er, -, hverdict, -⟩ | ⟨hfails, -⟩)
      · cases hverdict
      · exact hfails hw
  obtain ⟨task, htask, -⟩ := SubscriberTask.exists_proceed (P := fun _ ↦ True)
    (k := Sum.elim (SubscriberTask.loopTop s.stop) fun samples _ ↦ .ended (.ok samples)) hround
  refine ⟨withTask s j task, ?_⟩
  rw [step, hs, SubscriberTask.step, if_neg fun h ↦ Stimulus.noConfusion h.1]
  refine congrArg (Option.map _) (Eq.trans ?_ htask)
  refine congrArg (SubscriberTask.proceed · _) (funext fun result ↦ ?_)
  rcases result with l' | samples <;> rfl

end Scenario

/-- The end of the warmup can be written into a header, and is an instant. -/
def WarmupEnds (r : Setting) : Prop :=
  r.config.warmup < 2 ^ 64 ∧ Subscriber.Representable r.warmupUntil

/-- A late message can only be heard if the warmup ends. -/
theorem HearsLate.warmupEnds (h : HearsLate s a) : WarmupEnds r := by
  obtain ⟨payload, -, header, -, hinstant, hwarm⟩ := h
  exact ⟨hwarm.trans_lt header.elapsedNs.toNat_lt,
    (Nat.add_le_add_left hwarm r.baseline).trans_lt hinstant⟩

/-- Where no publisher has anything to send, no message is heard. -/
theorem neverSteps_of_nothingToSend (h : NothingToSend r.config) :
    NeverSteps Forwards (HearsLate (r := r)) := by
  rintro s a s' hs hforwards - ⟨payload, hhears, -⟩
  cases hhears with
  | message =>
    obtain ⟨i, c, p, q, hi, hq, -⟩ := hforwards
    have hquiet := always_quiet (s := initial r) h (fun _ ↦ trivial) s (reaches_of_allowed hs) i
    refine hquiet.not_published ?_
    rw [hi]
    exact ⟨q, hq⟩

/-- Where no message is heard there is nothing to forward. -/
theorem forwards_of_rests (h : a.Rests) : Forwards s a := by
  cases a with
  | subscriber => exact h.elim
  | _ => trivial

/-- A message can be built when the warmup is over: where it is due too late for its time to fit in
a header, the time wraps. -/
theorem exists_late (since : ℕ) (hwarm : WarmupEnds r) :
    ∃ nanos, r.config.warmup ≤ (since + nanos) % 2 ^ 64 ∧
      Subscriber.Representable (r.baseline + (since + nanos) % 2 ^ 64) := by
  by_cases hfits : since + r.config.warmup < 2 ^ 64 ∧
      Subscriber.Representable (r.baseline + (since + r.config.warmup))
  · refine ⟨r.config.warmup, ?_⟩
    rw [Nat.mod_eq_of_lt hfits.1]
    exact ⟨Nat.le_add_left _ _, hfits.2⟩
  · have hsum : since + ((2 ^ 64 - 1) * since + r.config.warmup) =
        2 ^ 64 * since + r.config.warmup := by
      omega
    refine ⟨(2 ^ 64 - 1) * since + r.config.warmup, ?_⟩
    rw [hsum, Nat.mul_add_mod, Nat.mod_eq_of_lt hwarm.1]
    exact ⟨le_rfl, hwarm.2⟩

/-- A publisher with something to send can send it when the warmup is over. -/
theorem reaches_late {i : Fin r.config.publishers} (hs : s.publishers i = .connecting)
    (hstop : s.stop = false) (hquota : r.config.quotaFor (UInt32.ofNat i).toNat ≠ some 0)
    (hbaseline : r.baseline ≤ s.clock) (hwarm : WarmupEnds r) :
    ∃ t c p m header, Reaches RestingStep s t ∧ t.publishers i = .running c p ∧
      .publish m ∈ p.written ∧ Payload.decode m.payload = some header ∧
      Subscriber.Representable (r.baseline + header.elapsedNs.toNat) ∧
      r.config.warmup ≤ header.elapsedNs.toNat ∧ t.subscribers = s.subscribers := by
  let due := (r.schedule s.clock 0).getD 0
  obtain ⟨nanos, hlate, hinstant⟩ := exists_late (s.clock + due - r.baseline) hwarm
  obtain ⟨t, p, m, ht, hti, hm, hpayload, helsewhere⟩ := reaches_written nanos hs hstop hquota
  let header : Payload.Header := ⟨.ofNat (s.clock + nanos + due - r.baseline), .ofNat i, .ofNat 0⟩
  have hdecode : Payload.decode m.payload = some header := by
    rw [hpayload]
    exact Payload.decode_build _ _
  have helapsed : header.elapsedNs.toNat = (s.clock + due - r.baseline + nanos) % 2 ^ 64 := by
    have hsum : s.clock + nanos + due - r.baseline = s.clock + due - r.baseline + nanos := by
      omega
    show (UInt64.ofNat (s.clock + nanos + due - r.baseline)).toNat = _
    rw [UInt64.toNat_ofNat', hsum]
  rw [← helapsed] at hlate hinstant
  exact ⟨t, _, p, m, header, ht, hti, hm, hdecode, hinstant, hlate, helsewhere.subscribers⟩

/-- **A publisher with something to send can be heard when the warmup is over.** -/
theorem not_neverSteps (j : Fin r.config.subscribers) (hsend : ¬NothingToSend r.config)
    (hwarm : WarmupEnds r) : ¬NeverSteps Forwards (HearsLate (r := r)) := by
  intro hnever
  obtain ⟨i, hi, hquota⟩ : ∃ i < r.config.publishers, r.config.quotaFor i ≠ some 0 := by
    simpa only [NothingToSend, not_forall, exists_prop] using hsend
  obtain ⟨w, hw, hlistening⟩ := reaches_listening (s := spawned r) (j := j) rfl rfl
  obtain ⟨t, c, p, m, header, ht, hti, hm, hdecode, hinstant, hlate, hsubscribers⟩ :=
    reaches_late (s := withTask (spawned r) j (.receiving (.reading ⟨0, []⟩) w)) (i := ⟨i, hi⟩)
      rfl rfl (fun hzero ↦ hquota (quotaFor_eq_zero (toNat_index_le i) hzero))
      (Nat.le_add_right _ _) hwarm
  have htask : t.subscribers j = .receiving (.reading ⟨0, []⟩) w := by
    rw [hsubscribers]
    exact Function.update_self j _ _
  obtain ⟨t', ht'⟩ := exists_step_hear m htask hw
  have hforwards : ∀ {u v : State r}, Reaches RestingStep u v →
      Reaches (AllowedStep Forwards) u v :=
    fun h ↦ reaches_allowed_mono h fun _ _ ↦ forwards_of_rests
  have hreaches := ((hforwards (reaches_spawned r)).trans hlistening).trans (hforwards ht)
  have hallowed : Forwards t (.subscriber j (.hear (.packet (.publish m)))) :=
    ⟨⟨i, hi⟩, c, p, m, hti, hm, rfl, rfl⟩
  exact hnever t _ t' hreaches hallowed ht' ⟨m.payload, .message htask, header, hdecode,
    hinstant, hlate⟩

/-! ### The result -/

/-- **A short payload does not disable the measurement.** The report says that it is disabled; but
nothing is measured in exactly those runs in which no subscriber hears a message of the run that was
sent when the warmup was over. So a configuration never measures only if it has nothing to send,
or its warmup never ends. -/
theorem neverMeasured_iff (hsubscribers : 0 < r.config.subscribers)
    (hshort : r.config.payloadSize < Payload.headerLen) :
    (∀ (s : State r) display, (s.report display).endToEndDisabled = true) ∧
    (∀ allowed : State r → Act r → Prop, (∀ s a, allowed s a → Forwards s a) →
      (NeverMeasured allowed ↔ NeverSteps allowed HearsLate)) ∧
    (NeverMeasured (Forwards (r := r)) ↔ NothingToSend r.config ∨ ¬WarmupEnds r) := by
  refine ⟨fun s display ↦ ?_, fun _ ↦ neverMeasured_iff_of_forwards, ?_⟩
  · simp [State.report, Config.measuresEndToEnd, hsubscribers, hshort]
  · rw [neverMeasured_iff_of_forwards fun _ _ h ↦ h]
    constructor
    · intro hnever
      by_contra hnot
      obtain ⟨hsend, hwarm⟩ := not_or.1 hnot
      exact not_neverSteps ⟨0, hsubscribers⟩ hsend (not_not.1 hwarm) hnever
    · rintro (hsend | hwarm)
      · exact neverSteps_of_nothingToSend hsend
      · exact fun _ _ _ _ _ _ hlate ↦ hwarm hlate.warmupEnds

/-- One subscriber, and one publisher of ten messages of eight bytes. -/
def short : Setting :=
  { pair with config := { pair.config with payloadSize := 8 } }

theorem neverMeasured_iff_short :
    NeverMeasured (Forwards (r := short)) ↔ NothingToSend short.config ∨ ¬WarmupEnds short :=
  (neverMeasured_iff (by decide) (by decide)).2.2

theorem not_nothingToSend_short : ¬NothingToSend short.config :=
  fun h ↦ absurd (h 0 (by decide)) (by decide)

/-- The messages are sixteen bytes long, and are timed. -/
theorem not_neverMeasured_short : ¬NeverMeasured (Forwards (r := short)) := by
  rw [neverMeasured_iff_of_forwards fun _ _ h ↦ h]
  refine not_neverSteps ⟨0, by decide⟩ not_nothingToSend_short ⟨by decide, ?_⟩
  show 0 < 2 ^ 63 * 10 ^ 9
  decide

end Run

end Bench

end PulsemqCli
