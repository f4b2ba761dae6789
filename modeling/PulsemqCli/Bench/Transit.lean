import PulsemqCli.Bench.EndToEnd
import PulsemqCli.Bench.Samples
import PulsemqCli.Library.History

/-!
# End-to-end samples are transit times

A run leaves a mark whenever a publisher builds a message and whenever a subscriber hears one. If
the broker forwards messages unchanged, the end-to-end samples that are reported are the times
between the two, one for each message that was heard and not built in the warmup.

A message is identified by nothing but its bytes, and the same bytes may be heard by several
subscribers, and several times by one. So a mark says who built a message or heard it, when, and
what it was, and `transit` is computed from what was heard: the time at which it was built is in its
header. `Sourced` is the half of the result that says that this time is true, that a publisher did
build these bytes then.

`Traced` has three parts: every message that a publisher still has or has written is built in some
mark, every message heard was built before, and the samples of each subscriber that has not failed
are the transit times of what it heard. The last part is an equation of lists, order included.

A subscriber that fails takes its samples with it. The result speaks of the ones that returned, and
the report merges just these.
-/

namespace PulsemqCli

namespace Bench

/-! ### The message a publisher builds

A message is built in the step that takes it from its permit, at QoS 0 from its deadline, to the
map; `builtMessage` reads it off that step. -/

namespace Publisher

open Protocol

variable {c : Setting} {s s' : State} {a : Act} {m : Publish}

/-- The message the write side builds. -/
def builtMessage (c : Setting) (s : State) : Publish :=
  message c s (if c.acknowledged then some (nextId s.nextPacketId) else none)

/-- A message comes to be where the write side has its permit. -/
theorem permitted_of_move (hm : Move c s s') (h : s'.phase.unwritten = some m) :
    s.phase.unwritten = some m ∨ s.phase = .permitted := by
  cases hm with
  | tick | deliver | raiseStop | dropStop | readEof | readError | complete | completeUnknown
  | freeRefused | free | close => exact .inl h
  | read =>
    rw [onPacket_phase] at h
    exact .inl h
  | assign hphase | assignNone hphase => exact .inr hphase
  | insert hphase | insertNone hphase =>
    rw [hphase]
    exact .inl h
  | @drained d | @releaseIgnored d => cases d <;> cases h
  | quotaReached | stopSeen | haltPacing | acquireClosed | haltAcquiring =>
    rcases leave_phase _ with hl | ⟨_, hl⟩ <;> rw [hl] at h <;> cases h
  | _ => cases h

/-- **A message is built by one kind of step alone.** -/
theorem unwritten_of_step (ha : step c s a = some s') (h : s'.phase.unwritten = some m) :
    s.phase.unwritten = some m ∨ (a = .advance ∧ s.phase = .permitted ∧ m = builtMessage c s) := by
  refine (permitted_of_move (move_of_step ⟨a, ha⟩) h).imp_right fun hphase ↦ ?_
  have hstays : s'.phase ≠ s.phase := by
    intro hsame
    rw [hsame, hphase] at h
    cases h
  cases a with
  | advance =>
    refine ⟨rfl, hphase, ?_⟩
    simp only [step, advance, hphase] at ha
    rw [builtMessage]
    split at ha
    next hqos =>
      cases ha
      rw [if_pos hqos]
      exact (Option.some.inj h).symm
    next hqos =>
      cases ha
      rw [if_neg hqos]
      exact (Option.some.inj h).symm
  | tick | deliver | raiseStop | dropStop =>
    cases ha
    exact absurd rfl hstays
  | acknowledge => exact absurd (acknowledge_phase ha) hstays
  | fail | halt | timeout => simp [step, fail, halt, timeout, hphase] at ha

end Publisher

namespace Run

open Protocol Client Reactive Transition

variable {r : Setting}

/-! ### Runs with their marks -/

/-- What is seen of the messages of a run. -/
inductive Mark (r : Setting) where
  /-- A publisher builds a message. -/
  | built (i : Fin r.config.publishers) (clock : ℕ) (m : Publish)
  /-- A subscriber hears a message in its receive loop. -/
  | heard (j : Fin r.config.subscribers) (clock : ℕ) (m : Publish)
  deriving DecidableEq

/-- The marks of an act. -/
def marks (s : State r) : Act r → List (Mark r)
  | .publisher i (.act .advance) =>
    match s.publishers i with
    | .running c p =>
      if p.phase = .permitted then [.built i s.clock (Publisher.builtMessage c p)] else []
    | _ => []
  | .subscriber j (.hear (.packet (.publish m))) =>
    match s.subscribers j with
    | .receiving (.reading _) _ => [.heard j s.clock m]
    | _ => []
  | _ => []

/-- A run with its marks, of a broker that forwards messages unchanged. -/
abbrev ForwardedRun (r : Setting) : List (Mark r) → State r → Prop :=
  Marked Forwards step marks (initial r)

/-- When a message was built, by its header. -/
def builtAt (r : Setting) (m : Publish) : ℕ :=
  r.baseline + ((Payload.decode m.payload).map fun header ↦ header.elapsedNs.toNat).getD 0

/-- The sample a message gives: the time between its building and its hearing, unless it was built
in the warmup. -/
def transit (r : Setting) (x : ℕ × Publish) : Option ℕ :=
  if r.warmupUntil ≤ builtAt r x.2 then some (x.1 - builtAt r x.2) else none

/-- What a subscriber heard, and when. -/
def heardBy (j : Fin r.config.subscribers) (es : List (Mark r)) : List (ℕ × Publish) :=
  es.filterMap fun
    | .heard j' clock m => if j' = j then some (clock, m) else none
    | .built .. => none

/-- The samples a subscriber holds, or has returned. -/
def SubscriberTask.samples : SubscriberTask → List ℕ
  | .receiving l _ => l.samples
  | .ended (.ok samples) => samples
  | _ => []

/-- The task has failed, and what it had measured is lost. -/
def SubscriberTask.Failed : SubscriberTask → Prop
  | .ended (.error _) => True
  | _ => False

/-- The task has returned its samples. -/
def SubscriberTask.succeeded : SubscriberTask → Bool
  | .ended (.ok _) => true
  | _ => false

/-- The end-to-end samples of a run, by what the subscribers that have returned heard. -/
def transits (s : State r) (es : List (Mark r)) : List ℕ :=
  (List.ofFn fun j ↦ if (s.subscribers j).succeeded then
    (heardBy j es).filterMap (transit r) else []).flatten

/-- What a subscriber hears was built by a publisher before. -/
def Sourced (before : List (Mark r)) : Mark r → Prop
  | .built .. => True
  | .heard _ clock m => ∃ i q, .built i (builtAt r m) q ∈ before ∧ builtAt r m ≤ clock ∧
      m.topic = q.topic ∧ m.payload = q.payload

/-! ### What a subscriber measures

What is measured is computed from what was heard: the payload, the instant at which it was handled,
and the times of the run. So the samples of a task are the image of what it heard, and each round of
its loop adds the image of one message. -/

variable {s s' : State r} {a : Act r} {es : List (Mark r)}

/-- The instants every subscriber of the run measures against, whatever the clock. -/
def instants (r : Setting) : Subscriber.Timing :=
  ⟨r.baseline, r.warmupUntil, fun _ ↦ 0⟩

/-- The sample a subscriber records of what it hears. -/
def measured (r : Setting) (x : ℕ × Publish) : Option ℕ :=
  Subscriber.sampleOf (instants r) x.1 x.2.payload

/-- What a stimulus adds to the samples of a task. -/
def SubscriberTask.added (r : Setting) (clock : ℕ) : SubscriberTask → SubscriberAct → List ℕ
  | .receiving (.reading _) _, .hear (.packet (.publish m)) => (measured r (clock, m)).toList
  | _, _ => []

/-- At its loop's top a subscriber measures nothing. -/
theorem SubscriberTask.samples_loopTop {stop : Bool} {l : Subscriber.Listening} {w : Net} :
    (loopTop stop l w).samples = l.samples := by
  unfold loopTop
  split <;> rfl

/-- A round of the receive loop measures the message it hears. -/
theorem wp_listenOn_samples {index clock : ℕ} {l : Subscriber.Listening} {x : Stimulus} {w : Net} :
    wp (Subscriber.listenOn index ⟨r.baseline, r.warmupUntil, fun _ ↦ clock⟩ l x)
      (fun result _ ↦ Sum.elim Subscriber.Listening.samples id result =
        l.samples ++ (SubscriberTask.receiving l w).added r clock (.hear x))
      (fun _ _ ↦ True) w := by
  have hfollows := Subscriber.follows_receive index ⟨r.baseline, r.warmupUntil, fun _ ↦ clock⟩
  cases l with
  | reading v =>
    cases x with
    | packet p =>
      simp only [Subscriber.listenOn, wp_bind]
      refine (hfollows.packet v p w).mono ?_ fun _ _ _ ↦ trivial
      rintro (v' | samples) w' ⟨-, -, -, hverdict⟩
      · cases p with
        | publish m =>
          obtain rfl := Receive.Verdict.again.inj hverdict
          rfl
        | disconnect => cases hverdict
        | _ =>
          obtain rfl := Receive.Verdict.again.inj hverdict
          exact (List.append_nil _).symm
      · cases p <;> cases hverdict
    | stop | idle | eof => exact (List.append_nil _).symm
    | readError e => exact trivial
  | closed samples =>
    by_cases hx : x = .stop
    · subst hx
      exact (List.append_nil _).symm
    · rw [Subscriber.listenOn_closed index _ samples hx]
      exact (List.append_nil _).symm

/-- **A step of a subscriber measures the message it hears**, unless it fails. -/
theorem SubscriberTask.samples_of_step {index : UInt32} {clock : ℕ} {stop : Bool}
    {t t' : SubscriberTask} {b : SubscriberAct} (hstep : step r index clock stop t b = some t')
    (hok : ¬t'.Failed) : t'.samples = t.samples ++ t.added r clock b := by
  suffices h : t'.Failed ∨ t'.samples = t.samples ++ t.added r clock b from h.resolve_left hok
  unfold step at hstep
  split at hstep
  · cases hstep
    exact .inr rfl
  · cases hstep
    exact .inl trivial
  next w =>
    exact of_proceed (P := fun t' ↦ t'.Failed ∨ t'.samples = []) (k := fun _ ↦ .awaiting) hstep
      ((logs_send _ w).mono (fun _ _ _ ↦ .inr rfl) fun _ _ _ ↦ trivial) fun _ ↦ .inl trivial
  next w x =>
    split at hstep
    · cases hstep
    · refine of_proceed (P := fun t' ↦ t'.Failed ∨ t'.samples = []) hstep
        ((logs_awaitSubAck _ _ x w).mono ?_ fun _ _ _ ↦ trivial) fun _ ↦ .inl trivial
      rintro (_ | stopped) w' -
      · exact .inr rfl
      · exact .inr samples_loopTop
  next l w x =>
    split at hstep
    · cases hstep
    · refine of_proceed (P := fun t' ↦ t'.Failed ∨ t'.samples =
          (receiving l w).samples ++ (receiving l w).added r clock (.hear x)) hstep
        (wp_listenOn_samples.mono ?_ fun _ _ _ ↦ trivial) fun _ ↦ .inl trivial
      rintro (l' | samples) w' hsamples
      · exact .inr (samples_loopTop.trans hsamples)
      · exact .inr hsamples
  · cases hstep

/-! ### What was built, heard and measured so far

`Traced` is the invariant of a marked run. The broker's part in it is the condition on what is
allowed to be heard; it carries over to a mark, since what a publisher has written was built in a
mark before. -/

/-- A message of a publisher's that was built before. -/
def WasBuilt (es : List (Mark r)) (i : Fin r.config.publishers) (q : Publish) : Prop :=
  ∃ b, .built i b q ∈ es

/-- What a publisher has built has its mark. -/
structure PublisherTask.Attested (r : Setting) (es : List (Mark r)) (clock : ℕ)
    (i : Fin r.config.publishers) (c : Publisher.Setting) (p : Publisher.State) : Prop where
  config : c.config = r.config
  baseline : c.baseline = r.baseline
  index : c.index = .ofNat i
  clock : p.clock = clock
  unwritten : ∀ q, p.phase.unwritten = some q → WasBuilt es i q
  written : ∀ q, .publish q ∈ p.written → WasBuilt es i q

/-- The payload of a message that was built at the instant `b`. -/
def BuiltPayload (r : Setting) (i : Fin r.config.publishers) (b : ℕ) (q : Publish) : Prop :=
  ∃ seq, q.payload =
    Payload.build r.config.payloadSize ⟨.ofNat (b - r.baseline), .ofNat i, seq⟩

/-- What is heard was built before, by a publisher that wrote it. -/
def HeardFrom (before : List (Mark r)) : Mark r → Prop
  | .built .. => True
  | .heard _ clock m => ∃ i b q, .built i b q ∈ before ∧ b ≤ clock ∧ m.topic = q.topic ∧
      m.payload = q.payload

structure Traced (es : List (Mark r)) (s : State r) : Prop where
  baseline : r.baseline ≤ s.clock
  publishers : ∀ i c p, s.publishers i = .running c p →
    PublisherTask.Attested r es s.clock i c p
  built : ∀ i b q, .built i b q ∈ es → r.baseline ≤ b ∧ b ≤ s.clock ∧ BuiltPayload r i b q
  heard : ∀ j clock m, .heard j clock m ∈ es → clock ≤ s.clock
  sourced : Throughout HeardFrom es
  samples : ∀ j, ¬(s.subscribers j).Failed →
    (s.subscribers j).samples = (heardBy j es).filterMap (measured r)

/-- Before the run nothing is built or heard. -/
theorem traced_initial (r : Setting) : Traced [] (initial r) where
  baseline := le_rfl
  publishers := fun _ _ _ h ↦ (by cases h)
  built := fun _ _ _ h ↦ absurd h List.not_mem_nil
  heard := fun _ _ _ h ↦ absurd h List.not_mem_nil
  sourced := throughout_nil
  samples := fun _ _ ↦ rfl

/-- What was built stays built. -/
theorem WasBuilt.append {i : Fin r.config.publishers} {q : Publish} (h : WasBuilt es i q)
    (fs : List (Mark r)) : WasBuilt (es ++ fs) i q := by
  obtain ⟨b, hb⟩ := h
  exact ⟨b, List.mem_append_left _ hb⟩

/-- A mark that is made is a message that a publisher builds, or one that a subscriber hears. -/
theorem mem_marks {x : Mark r} (h : x ∈ marks s a) :
    (∃ i c p, a = .publisher i (.act .advance) ∧ s.publishers i = .running c p ∧
      p.phase = .permitted ∧ marks s a = [x] ∧ x = .built i s.clock (Publisher.builtMessage c p)) ∨
    ∃ j v w m, a = .subscriber j (.hear (.packet (.publish m))) ∧
      s.subscribers j = .receiving (.reading v) w ∧ marks s a = [x] ∧ x = .heard j s.clock m := by
  unfold marks at h ⊢
  split at h
  next i =>
    split at h
    next c p hrunning =>
      split at h
      next hphase =>
        refine .inl ⟨i, c, p, rfl, hrunning, hphase, ?_, List.mem_singleton.1 h⟩
        rw [List.mem_singleton.1 h]
        simp only [if_pos hphase]
      next => cases h
    next => cases h
  next j m =>
    split at h
    next v w hreading =>
      refine .inr ⟨j, v, w, m, rfl, hreading, ?_, List.mem_singleton.1 h⟩
      rw [List.mem_singleton.1 h]
    next => cases h
  next => cases h

/-- **What a publisher builds keeps its mark.** -/
theorem Traced.attested_step (h : Traced es s) (ha : step s a = some s')
    {i : Fin r.config.publishers} {c : Publisher.Setting} {p' : Publisher.State}
    (hrunning : s'.publishers i = .running c p') :
    PublisherTask.Attested r (es ++ marks s a) s'.clock i c p' := by
  cases passage_of_step ha i with
  | rests nanos stop hpassed _ htask =>
    rw [htask] at hrunning
    rcases hbefore : s.publishers i with - | - | e | ⟨c', p⟩ <;> rw [hbefore] at hrunning <;>
      cases hrunning
    obtain ⟨hconfig, hbaseline, hindex, hclock, hunwritten, hwritten⟩ := h.publishers i c p hbefore
    exact ⟨hconfig, hbaseline, hindex, by rw [hpassed, ← hclock]; rfl,
      fun q hq ↦ (hunwritten q hq).append _, fun q hq ↦ (hwritten q hq).append _⟩
  | spawned _ _ htask | refused _ _ _ htask =>
    rw [htask] at hrunning
    cases hrunning
  | connected receiveMaximum hclock _ htask =>
    rw [htask] at hrunning
    cases hrunning
    exact ⟨rfl, rfl, rfl, hclock.symm, fun q hq ↦ (by cases hq), fun q hq ↦ (by cases hq)⟩
  | @runs c' p _ b hact hown hclock _ hbefore hruns htask =>
    rw [htask] at hrunning
    cases hrunning
    obtain ⟨hconfig, hbaseline, hindex, hsame, hunwritten, hwritten⟩ := h.publishers i c p hbefore
    refine ⟨hconfig, hbaseline, hindex, ?_, fun q hq ↦ ?_, fun q hq ↦ ?_⟩
    · rw [hclock, ← hsame]
      exact Publisher.clock_of_step hruns fun nanos hb ↦ by rw [hb] at hown; cases hown
    · rcases Publisher.unwritten_of_step hruns hq with hold | ⟨rfl, hphase, rfl⟩
      · exact (hunwritten q hold).append _
      · refine ⟨s.clock, List.mem_append_right _ ?_⟩
        rw [hact, marks, hbefore]
        simp only [if_pos hphase, List.mem_singleton]
    · rcases Publisher.written_of_move (Publisher.move_of_step ⟨b, hruns⟩) with hw | ⟨x, hw, hx⟩
      · rw [hw] at hq
        exact (hwritten q hq).append _
      · rw [hw, List.mem_append, List.mem_singleton] at hq
        rcases hq with hq | rfl
        · exact (hwritten q hq).append _
        · refine (hunwritten q ?_).append _
          rw [hx q rfl]
          rfl
  | @panics c' p _ e _ hclock _ hbefore hpanic htask =>
    rw [htask] at hrunning
    cases hrunning
    obtain ⟨hconfig, hbaseline, hindex, hsame, -, hwritten⟩ := h.publishers i c p hbefore
    obtain ⟨-, permits, rfl⟩ := Publisher.panic_eq hpanic
    exact ⟨hconfig, hbaseline, hindex, hsame.trans hclock.symm, fun q hq ↦ (by cases hq),
      fun q hq ↦ (hwritten q hq).append _⟩

/-- What a subscriber heard, mark by mark. -/
theorem heardBy_append (j : Fin r.config.subscribers) (es fs : List (Mark r)) :
    heardBy j (es ++ fs) = heardBy j es ++ heardBy j fs :=
  List.filterMap_append

/-- Only what a subscriber does itself adds to what it heard. -/
theorem heardBy_marks {j : Fin r.config.subscribers} (h : ∀ b, a ≠ .subscriber j b) :
    heardBy j (marks s a) = [] := by
  refine List.filterMap_eq_nil_iff.2 fun x hx ↦ ?_
  obtain ⟨i, c, p, -, -, -, -, rfl⟩ | ⟨j', v, w, m, rfl, -, -, rfl⟩ := mem_marks hx
  · rfl
  · exact if_neg fun hj ↦ h _ (by rw [hj])

/-- What a subscriber's own step adds is what it measures. -/
theorem added_eq (j : Fin r.config.subscribers) (b : SubscriberAct) :
    (s.subscribers j).added r s.clock b =
      (heardBy j (marks s (.subscriber j b))).filterMap (measured r) := by
  cases b with
  | hear x =>
    cases x with
    | packet p =>
      cases p with
      | publish m =>
        rw [marks]
        rcases htask : s.subscribers j with - | w | w | ⟨l, w⟩ | result
        · rfl
        · rfl
        · rfl
        · cases l with
          | closed samples => rfl
          | reading v =>
            simp only [SubscriberTask.added, heardBy, List.filterMap_cons, if_true,
              List.filterMap_nil]
            cases measured r (s.clock, m) <;> rfl
        · rfl
      | _ => rcases s.subscribers j with - | w | w | ⟨l | l, w⟩ | result <;> rfl
    | _ => rcases s.subscribers j with - | w | w | ⟨l | l, w⟩ | result <;> rfl
  | _ => rcases s.subscribers j with - | w | w | ⟨l | l, w⟩ | result <;> rfl

/-- **What is measured is what is heard.** -/
theorem Traced.samples_step (h : Traced es s) (ha : step s a = some s')
    (j : Fin r.config.subscribers) (hok : ¬(s'.subscribers j).Failed) :
    (s'.subscribers j).samples = (heardBy j (es ++ marks s a)).filterMap (measured r) := by
  rw [heardBy_append, List.filterMap_append]
  by_cases hown : ∃ b, a = .subscriber j b
  · obtain ⟨b, rfl⟩ := hown
    obtain ⟨t, ht, rfl⟩ := Option.map_eq_some_iff.1 ha
    have htask : Function.update s.subscribers j t j = t := Function.update_self j t s.subscribers
    simp only [htask] at hok ⊢
    have hbefore : ¬(s.subscribers j).Failed := by
      intro hfailed
      rcases hs : s.subscribers j with - | w | w | ⟨l, w⟩ | result <;> rw [hs] at ht hfailed
      all_goals first | exact hfailed | cases ht
    rw [SubscriberTask.samples_of_step ht hok, h.samples j hbefore, added_eq]
  · rw [not_exists] at hown
    have hsame : s'.subscribers j = s.subscribers j :=
      (subscriber_of_step ha j).resolve_right fun ⟨b, hb, _⟩ ↦ hown b hb
    rw [hsame] at hok ⊢
    rw [heardBy_marks hown, h.samples j hok]
    exact (List.append_nil _).symm

/-- **One step of a marked run.** -/
theorem Traced.step (h : Traced es s) (hforwards : Forwards s a) (ha : step s a = some s') :
    Traced (es ++ marks s a) s' where
  baseline := h.baseline.trans (clock_le_of_step ⟨a, ha⟩)
  publishers := fun _ _ _ hrunning ↦ h.attested_step ha hrunning
  built := by
    intro i b q hmem
    have hclock := clock_le_of_step ⟨a, ha⟩
    rcases List.mem_append.1 hmem with hold | hnew
    · obtain ⟨hbaseline, hpast, hpayload⟩ := h.built i b q hold
      exact ⟨hbaseline, hpast.trans hclock, hpayload⟩
    · obtain ⟨i', c, p, -, hrunning, -, -, hx⟩ | ⟨j, v, w, m, -, -, -, hx⟩ := mem_marks hnew
      · cases hx
        have hattested := h.publishers i c p hrunning
        refine ⟨h.baseline, hclock, .ofNat p.sent, ?_⟩
        rw [Publisher.builtMessage, Publisher.message, hattested.config, hattested.baseline,
          hattested.index, hattested.clock]
      · cases hx
  heard := by
    intro j clock m hmem
    have hclock := clock_le_of_step ⟨a, ha⟩
    rcases List.mem_append.1 hmem with hold | hnew
    · exact (h.heard j clock m hold).trans hclock
    · obtain ⟨i', c, p, -, -, -, -, hx⟩ | ⟨j, v, w, m, -, -, -, hx⟩ := mem_marks hnew
      · cases hx
      · cases hx
        exact hclock
  sourced := by
    refine h.sourced.append (fun before fs x hx ↦ ?_) fun x hx ↦ ?_
    · cases x with
      | built => trivial
      | heard =>
        obtain ⟨i, b, q, hmem, hrest⟩ := hx
        exact ⟨i, b, q, List.mem_append_left _ hmem, hrest⟩
    · obtain ⟨i', c, p, -, -, -, -, rfl⟩ | ⟨j, v, w, m, rfl, -, -, rfl⟩ := mem_marks hx
      · trivial
      · obtain ⟨i, c, p, q, hrunning, hq, htopic, hpayload⟩ := hforwards
        obtain ⟨b, hb⟩ := (h.publishers i c p hrunning).written q hq
        exact ⟨i, b, q, hb, (h.built i b q hb).2.1, htopic, hpayload⟩
  samples := fun j hok ↦ h.samples_step ha j hok

/-- The marks of a forwarded run tell what was measured. -/
theorem traced (h : ForwardedRun r es s) : Traced es s :=
  h.invariant (traced_initial r) fun _ _ _ _ hi hforwards ha ↦ hi.step hforwards ha

/-! ### The result -/

/-- What is heard is dated by when it was built, and its sample is the time since. -/
theorem Traced.exact (h : Traced es s) (hfits : s.clock - r.baseline < 2 ^ 64)
    (hinstant : Subscriber.Representable s.clock) {before : List (Mark r)}
    {j : Fin r.config.subscribers} {clock : ℕ} {m : Publish}
    (hbefore : ∀ x ∈ before, x ∈ es) (hmem : .heard j clock m ∈ es)
    (hfrom : HeardFrom before (.heard j clock m)) :
    Sourced before (.heard j clock m) ∧ measured r (clock, m) = transit r (clock, m) := by
  obtain ⟨i, b, q, hb, hle, htopic, hpayload⟩ := hfrom
  obtain ⟨hbase, -, seq, hq⟩ := h.built i b q (hbefore _ hb)
  have hclock := h.heard j clock m hmem
  have helapsed : (UInt64.ofNat (b - r.baseline)).toNat = b - r.baseline := by
    rw [UInt64.toNat_ofNat']
    exact Nat.mod_eq_of_lt (by omega)
  have hbuilt : builtAt r m = b := by
    rw [builtAt, hpayload, hq, Payload.decode_build]
    show r.baseline + (UInt64.ofNat (b - r.baseline)).toNat = b
    omega
  refine ⟨⟨i, q, ?_, ?_, htopic, hpayload⟩, ?_⟩
  · rwa [hbuilt]
  · rwa [hbuilt]
  · rw [measured, transit, hbuilt, hpayload, hq]
    exact Subscriber.sampleOf_build (t := instants r) _ _ _ hbase hle
      (lt_of_le_of_lt (Nat.sub_le_sub_right hclock _) hfits) (lt_of_le_of_lt hclock hinstant)

/-- What a subscriber heard is marked. -/
theorem mem_of_mem_heardBy {j : Fin r.config.subscribers} {x : ℕ × Publish}
    (h : x ∈ heardBy j es) : .heard j x.1 x.2 ∈ es := by
  obtain ⟨mark, hmark, hx⟩ := List.mem_filterMap.1 h
  cases mark with
  | built => cases hx
  | heard j' clock m =>
    simp only at hx
    split at hx
    next hj =>
      cases hx
      rwa [← hj]
    next => cases hx

/-- What is summarized is what the tasks returned. -/
theorem flatMap_returned (results : List (Except Error (List ℕ))) :
    (Samples.returned (results.map fun result ↦
      .ok (result.map fun values ↦ ⟨values, false⟩))).flatMap (·.values) =
      results.flatMap fun result ↦ result.toOption.getD [] := by
  induction results with
  | nil => rfl
  | cons result results ih =>
    cases result with
    | error e => exact ih
    | ok values => exact congrArg (values ++ ·) ih

/-- What a task contributes to the report: its samples, if it returned. -/
theorem SubscriberTask.toOption_result (t : SubscriberTask) :
    ((t.result).getD (.ok [])).toOption.getD [] = if t.succeeded then t.samples else [] := by
  cases t with
  | ended result => cases result <;> rfl
  | _ => rfl

/-- A task that succeeded has not failed. -/
theorem SubscriberTask.not_failed {t : SubscriberTask} (h : t.succeeded = true) : ¬t.Failed := by
  cases t with
  | ended result =>
    cases result with
    | ok samples => exact id
    | error e => cases h
  | _ => exact id

/-- **End-to-end samples are transit times.** Of every run whose broker forwards messages unchanged,
in every interleaving and for as long as the clock lasts: what a subscriber hears was built by a
publisher of the run before, at the time its header says; and what is reported is, for each message
that a subscriber that did not fail has heard, and that was not built in the warmup, the time from
its building to its hearing, and nothing else. -/
theorem transits_exact (h : ForwardedRun r es s) (hfits : s.clock - r.baseline < 2 ^ 64)
    (hinstant : Subscriber.Representable s.clock) :
    Throughout Sourced es ∧
    (∀ j, ¬(s.subscribers j).Failed →
      (s.subscribers j).samples = (heardBy j es).filterMap (transit r)) ∧
    ∀ display, (s.report display).endToEnd = Samples.summaryOf (transits s es) := by
  have htraced := traced h
  have hsamples : ∀ j, ¬(s.subscribers j).Failed →
      (s.subscribers j).samples = (heardBy j es).filterMap (transit r) := by
    intro j hok
    rw [htraced.samples j hok]
    refine List.filterMap_congr fun x hx ↦ ?_
    have hmem := mem_of_mem_heardBy hx
    obtain ⟨before, after, hes⟩ := List.append_of_mem hmem
    exact (htraced.exact hfits hinstant (fun y hy ↦ by rw [hes]; exact List.mem_append_left _ hy)
      hmem (htraced.sourced before _ after hes)).2
  refine ⟨fun before x after hes ↦ ?_, hsamples, fun display ↦ ?_⟩
  · have hmem : x ∈ es := by
      rw [hes]
      exact List.mem_append_right _ List.mem_cons_self
    cases x with
    | built => trivial
    | heard j clock m =>
      exact (htraced.exact hfits hinstant (fun y hy ↦ by rw [hes]; exact List.mem_append_left _ hy)
        hmem (htraced.sourced before _ after hes)).1
  · show (joinTasks s.subscriberResults).1.summary.1 = _
    rw [Samples.joinTasks_eq, Samples.summary_joinHandles, ← Samples.coe_flatMap_values,
      flatMap_returned, State.subscriberResults, transits, List.flatMap_def, List.map_ofFn]
    congr 4
    funext j
    refine (SubscriberTask.toOption_result (s.subscribers j)).trans ?_
    split
    next hsucceeded => exact hsamples j (SubscriberTask.not_failed hsucceeded)
    next => rfl

/-- The broker forwards what it has, as far as can be seen from the state. -/
def forwards (s : State r) : Act r → Bool
  | .subscriber _ (.hear (.packet (.publish m))) =>
    (List.finRange r.config.publishers).any fun i ↦
      match s.publishers i with
      | .running _ p => p.written.any fun
        | .publish q => m.topic = q.topic && m.payload = q.payload
        | _ => false
      | _ => false
  | _ => true

theorem forwards_of_check (s : State r) (a : Act r) (h : forwards s a = true) : Forwards s a := by
  unfold forwards at h
  split at h
  next j m =>
    obtain ⟨i, -, hi⟩ := List.any_eq_true.1 h
    split at hi
    next c p hrunning =>
      obtain ⟨x, hx, hmatch⟩ := List.any_eq_true.1 hi
      split at hmatch
      next q =>
        rw [Bool.and_eq_true, decide_eq_true_eq, decide_eq_true_eq] at hmatch
        exact ⟨i, c, p, q, hrunning, hx, hmatch⟩
      next => cases hmatch
    next => cases hi
  next hother =>
    unfold Forwards
    split
    · exact absurd rfl (hother _ _)
    · trivial

/-- The publisher sends a message, and the subscriber hears it five nanoseconds later. -/
def fiveLater (i : Fin pair.config.publishers) (j : Fin pair.config.subscribers) :
    List (Act pair) :=
  [.subscriber j (.connected 0 fun _ ↦ none), .subscriber j .subscribe,
    .subscriber j (.hear (.packet (.suback ⟨1, [.success]⟩))), .tick subscriberSettle, .settle,
    .publisher i (.connected none)] ++
  List.replicate 8 (.publisher i (.act .advance)) ++
  [.tick 5, .subscriber j (.hear (.packet (.publish {
    dup := false
    qos := .atLeastOnce
    retain := false
    topic := "bench/0"
    packetId := some 1
    properties := {}
    payload := Payload.build 16 ⟨200000000, 0, 0⟩ })))]

theorem transits_exact_fiveLater : ∃ es s, ForwardedRun pair es s ∧
    (s.subscribers ⟨0, by decide⟩).samples = [5] ∧ Throughout Sourced es ∧
    (∀ j, ¬(s.subscribers j).Failed →
      (s.subscribers j).samples = (heardBy j es).filterMap (transit pair)) ∧
    ∀ display, (s.report display).endToEnd = Samples.summaryOf (transits s es) := by
  have hrun : (Marked.perform forwards step marks (fiveLater ⟨0, by decide⟩ ⟨0, by decide⟩)
      ([], initial pair)).any (fun x ↦ x.2.clock = subscriberSettle + 5 ∧
        (x.2.subscribers ⟨0, by decide⟩).samples = [5]) = true := by
    decide +kernel
  obtain ⟨⟨es, s⟩, hperform, hP⟩ := (Option.any_eq_true _ _).1 hrun
  obtain ⟨hclock, hsamples⟩ := of_decide_eq_true hP
  have hmarked : ForwardedRun pair es s := .of_perform forwards_of_check .start hperform
  have hfits : s.clock - pair.baseline < 2 ^ 64 := by
    show s.clock - 0 < 2 ^ 64
    simp only at hclock
    rw [hclock]
    decide
  have hinstant : Subscriber.Representable s.clock := by
    simp only at hclock
    rw [hclock]
    unfold Subscriber.Representable
    decide
  exact ⟨es, s, hmarked, hsamples, transits_exact hmarked hfits hinstant⟩

end Run

end Bench

end PulsemqCli
