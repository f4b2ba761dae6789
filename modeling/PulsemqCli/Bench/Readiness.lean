import PulsemqCli.Bench.Publisher.Window
import PulsemqCli.Bench.Scenario

/-!
# Whether the subscribers are ready before a publisher sends

A subscriber is ready with the SUBACK that grants its subscription, or once its task has ended. A
run is orderly as long as no PUBLISH is written before every subscriber is ready.

The publishers are spawned by the clock: `run` does not hear of the SUBACKs. If it happens to spawn
them when every subscriber is ready, then the run is orderly; if one is not, and a publisher has
something to send, then the run can get out of order.

Sufficiency is an invariant on each side. If every subscriber is ready at the spawning, all stay
ready (`AllReady.step`), so nothing that a publisher writes comes too early. A `PatientStep` is one
that spawns publishers only then; before the spawning there is no publisher to write (`Prepared`).

Necessity is a run. `can_publish` takes a publisher from its spawning to its first PUBLISH while the
subscribers stand still, which is possible because nothing that a publisher does waits for a
subscriber. It needs a message to send: with `--count 0` no publisher has one, and with fewer
messages than publishers only the first ones have. That the first publisher has the most to send
(`quotaFor_eq_zero`) makes it the one to look at.
-/

namespace PulsemqCli

namespace Bench

namespace Run

open Reactive Protocol Client Transition

variable {r : Setting} {s s' : State r}

/-! ### Ready subscribers

Being ready is told by the log, which only grows, and by the end of the task, which is for good. -/

/-- The SUBACK that grants the subscription was received. -/
def Granted (w : Net) : Prop :=
  ∃ ack : SubAck, .received (.suback ack) ∈ w.log ∧ ∀ code ∈ ack.reasonCodes, code.isError = false

namespace SubscriberTask

/-- The subscription is granted, or the task has ended. -/
def Ready : SubscriberTask → Prop
  | .connecting => False
  | .subscribing w | .awaiting w | .receiving _ w => Granted w
  | .ended _ => True

end SubscriberTask

/-- A log that goes on still has the SUBACK. -/
theorem Granted.mono {w w' : Net} (h : Granted w) (hlog : w.log <+: w'.log) : Granted w' := by
  obtain ⟨ack, hmem, hcodes⟩ := h
  exact ⟨ack, hlog.subset hmem, hcodes⟩

/-- A piece of code only adds to the log, where it returns. -/
def Logs {α : Type} (m : Command α) : Prop :=
  ∀ w, wp m (fun _ w' ↦ w.log <+: w'.log) (fun _ _ ↦ True) w

/-- A write adds to the log. -/
theorem logs_send (p : Packet) : Logs (send p) :=
  fun _ ↦ wp_send p (List.prefix_append _ _) fun _ _ ↦ trivial

theorem logs_awaitSubAck (index : ℕ) (stopped : Bool) (x : Stimulus) :
    Logs (Subscriber.awaitSubAck index stopped x) := by
  intro w
  cases x with
  | packet p =>
    simp only [Subscriber.awaitSubAck, wp_bind, wp_emit]
    split
    · split
      · exact trivial
      · exact List.prefix_append _ _
    · exact List.prefix_append _ _
  | stop | idle => exact List.prefix_rfl
  | eof | readError e => exact trivial

theorem logs_listenOn (index : ℕ) (t : Subscriber.Timing) (l : Subscriber.Listening)
    (x : Stimulus) : Logs (Subscriber.listenOn index t l x) := by
  intro w
  have hfollows := Subscriber.follows_receive index t
  cases l with
  | reading v =>
    cases x with
    | packet p =>
      simp only [Subscriber.listenOn, wp_bind]
      refine (hfollows.packet v p w).mono ?_ fun _ _ _ ↦ trivial
      rintro (v' | samples) w' ⟨-, -, ⟨es, -, hlog⟩, -⟩
      · exact ⟨es, hlog.symm⟩
      · exact ⟨es, hlog.symm⟩
    | stop | idle | eof => exact List.prefix_rfl
    | readError e => exact trivial
  | closed samples =>
    by_cases hx : x = .stop
    · subst hx
      exact List.prefix_rfl
    · rw [Subscriber.listenOn_closed index t samples hx]
      exact List.prefix_rfl

namespace SubscriberTask

/-- Ready subscribers stay ready as their code runs. -/
theorem ready_of_proceed {α : Type} {m : Command α} {k : α → Net → SubscriberTask} {w : Net}
    {t : SubscriberTask} (hm : Logs m) (hk : ∀ a w', Granted w' → (k a w').Ready)
    (hw : Granted w) (h : proceed k (m w) = some t) : t.Ready :=
  of_proceed h ((hm w).mono (fun a w' hlog ↦ hk a w' (hw.mono hlog)) fun _ _ _ ↦ trivial)
    fun _ ↦ trivial

/-- In the receive loop a subscriber is ready. -/
theorem ready_loopTop {stop : Bool} {l : Subscriber.Listening} {w : Net} (h : Granted w) :
    (loopTop stop l w).Ready := by
  unfold loopTop
  split
  · trivial
  · exact h

/-- **A ready subscriber stays ready.** -/
theorem Ready.of_step {index : UInt32} {clock : ℕ} {stop : Bool} {t t' : SubscriberTask}
    {a : SubscriberAct} (h : t.Ready) (hstep : step r index clock stop t a = some t') :
    t'.Ready := by
  unfold step at hstep
  split at hstep
  · exact h.elim
  · exact h.elim
  next w =>
    exact ready_of_proceed (k := fun _ ↦ .awaiting) (logs_send _) (fun _ _ hw' ↦ hw') h hstep
  next w x =>
    split at hstep
    · cases hstep
    · refine ready_of_proceed (logs_awaitSubAck _ _ x) ?_ h hstep
      rintro (_ | stopped) w' hw'
      · exact hw'
      · exact ready_loopTop hw'
  next l w x =>
    split at hstep
    · cases hstep
    · refine ready_of_proceed (logs_listenOn _ _ l x) ?_ h hstep
      rintro (l' | samples) w' hw'
      · exact ready_loopTop hw'
      · trivial
  · cases hstep

end SubscriberTask

/-! ### What a step does to the tasks

For what is asked here the moves of a publisher come down to a few changes: it is spawned, connects
or fails to, makes a step of its own or of its surroundings, or panics. -/

/-- What a step can do to a publisher's task. -/
inductive Change (s : State r) (index : ℕ) : PublisherTask → PublisherTask → Prop where
  | stays (t : PublisherTask) : Change s index t t
  | spawned (t : PublisherTask) : Change s index t .connecting
  | connected (receiveMaximum : Option UInt16) : Change s index .connecting
      (.running (r.publisher index receiveMaximum s.clock)
        { Publisher.initial (r.publisher index receiveMaximum s.clock) s.clock with
          stop := s.stop })
  | refused (e : Error) : Change s index .connecting (.refused e)
  | runs {c : Publisher.Setting} {p p' : Publisher.State} : Publisher.Step c p p' →
      Change s index (.running c p) (.running c p')
  | panics {c : Publisher.Setting} {p p' : Publisher.State} {e : String} :
      Publisher.panic c e p = some p' → Change s index (.running c p) (.running c p')

namespace Change

/-- The clock, or the stop signal, of all publishers changes. -/
theorem of_update {index : ℕ} (f : Publisher.State → Publisher.State)
    (hf : ∀ c p, Publisher.Step c p (f p)) (t : PublisherTask) :
    Change s index t (t.update f) := by
  cases t with
  | running c p => exact .runs (hf c p)
  | _ => exact .stays _

/-- The step of a task is one of the changes. -/
theorem of_step {index : ℕ} {t t' : PublisherTask} {a : PublisherAct}
    (h : t.step r index s.clock s.stop a = some t') : Change s index t t' := by
  unfold PublisherTask.step at h
  split at h
  · cases h
    exact .connected _
  · cases h
    exact .refused _
  · split at h
    · cases h
    · obtain ⟨p', hp', rfl⟩ := Option.map_eq_some_iff.1 h
      exact .runs ⟨_, hp'⟩
  · obtain ⟨p', hp', rfl⟩ := Option.map_eq_some_iff.1 h
    exact .panics hp'
  · cases h

end Change

/-- **Each publisher's task changes in one of these ways.** -/
theorem change_of_move (hm : Move s s') (i : Fin r.config.publishers) :
    Change s i (s.publishers i) (s'.publishers i) := by
  have hstop : ∀ t : PublisherTask, Change s i t (t.update fun p ↦ { p with stop := true }) :=
    .of_update _ fun _ _ ↦ ⟨.raiseStop, rfl⟩
  cases hm with
  | tick nanos => exact .of_update _ (fun _ _ ↦ ⟨.tick nanos, rfl⟩) _
  | settle => exact .spawned _
  | interrupt | drain => exact hstop _
  | joinPublishers | joinSubscribers | subscriber => exact .stays _
  | @publisher i' a t ht =>
    by_cases hi : i = i'
    · subst hi
      show Change s i (s.publishers i) (Function.update s.publishers i t i)
      rw [Function.update_self]
      exact .of_step ht
    · show Change s i (s.publishers i) (Function.update s.publishers i' t i)
      rw [Function.update_of_ne hi]
      exact .stays _

/-! ### Orderly runs -/

/-- Every subscriber is ready. -/
def AllReady (s : State r) : Prop :=
  ∀ j, (s.subscribers j).Ready

/-- The publisher has written a PUBLISH. -/
def PublisherTask.Published : PublisherTask → Prop
  | .running _ p => ∃ m, .publish m ∈ p.written
  | _ => False

/-- A PUBLISH is written only where every subscriber is ready. -/
def Orderly (s : State r) : Prop :=
  (∃ i, (s.publishers i).Published) → AllReady s

/-- The publishers are spawned. -/
def Spawns (s s' : State r) : Prop :=
  (∃ wake, s.main = .settling wake) ∧ s'.main = .publishing

/-- A step that spawns the publishers only where every subscriber is ready. -/
def PatientStep (s s' : State r) : Prop :=
  Step s s' ∧ (Spawns s s' → AllReady s)

/-- The run is limited to no messages at all. -/
def NothingToSend (config : Config) : Prop :=
  ∀ i < config.publishers, config.quotaFor i = some 0

/-- Where every subscriber is ready, a PUBLISH comes in order. -/
theorem AllReady.orderly (h : AllReady s) : Orderly s :=
  fun _ ↦ h

/-- Ready subscribers stay ready. -/
theorem AllReady.step (h : AllReady s) (hstep : Step s s') : AllReady s' := by
  intro j
  obtain ⟨a, ha⟩ := hstep
  rcases subscriber_of_step ha j with hj | ⟨b, -, hb⟩
  · rw [hj]
    exact h j
  · exact (h j).of_step hb

/-- A run that is ready once is orderly from there on. -/
theorem AllReady.always (h : AllReady s) : Always Step s Orderly := by
  have hready : Always Step s AllReady :=
    always_of_invariant h fun _ _ h hstep ↦ h.step hstep
  exact hready.mono fun _ ↦ AllReady.orderly

/-! ### Publishers that wait for the subscribers -/

/-- Every subscriber is ready, or no publisher is spawned yet. -/
def Prepared (s : State r) : Prop :=
  AllReady s ∨ (∃ wake, s.main = .settling wake) ∧ ∀ i, s.publishers i = .unspawned

/-- A run that is prepared is orderly. -/
theorem Prepared.orderly (h : Prepared s) : Orderly s := by
  rcases h with h | ⟨-, h⟩
  · exact h.orderly
  · rintro ⟨i, hi⟩
    rw [h i] at hi
    exact hi.elim

/-- A patient step leaves the run prepared. -/
theorem Prepared.of_step (h : Prepared s) (hstep : PatientStep s s') : Prepared s' := by
  have hm := move_of_step hstep.1
  rcases h with h | ⟨⟨wake, hmain⟩, hpublishers⟩
  · exact Or.inl (h.step hstep.1)
  cases hm with
  | tick nanos =>
    refine Or.inr ⟨⟨wake, hmain⟩, fun i ↦ ?_⟩
    show (s.publishers i).update _ = .unspawned
    rw [hpublishers i]
    rfl
  | settle => exact Or.inl (hstep.2 ⟨⟨wake, hmain⟩, rfl⟩)
  | interrupt hne => exact absurd hmain (hne wake)
  | joinPublishers h | drain h | joinSubscribers h => exact Main.noConfusion (h.symm.trans hmain)
  | subscriber => exact Or.inr ⟨⟨wake, hmain⟩, hpublishers⟩
  | @publisher i a t ht =>
    rw [hpublishers i] at ht
    cases ht

/-- **Where the publishers wait for the subscribers, a run is orderly.** -/
theorem always_orderly_of_patient (r : Setting) : Always PatientStep (initial r) Orderly :=
  (always_of_invariant (I := Prepared) (Or.inr ⟨⟨_, rfl⟩, fun _ ↦ rfl⟩)
    fun _ _ h hstep ↦ h.of_step hstep).mono fun _ ↦ Prepared.orderly

/-! ### Publishers with nothing to send -/

/-- What a publisher with nothing to send has done. -/
def PublisherTask.Quiet : PublisherTask → Prop
  | .running c p => c.quota = some 0 ∧ Publisher.BelowQuota c p ∧ ∀ m, .publish m ∉ p.written
  | _ => True

/-- A publisher whose quota is 0 writes no PUBLISH. -/
theorem PublisherTask.Quiet.change {t t' : PublisherTask} {i : ℕ} (h : t.Quiet)
    (hquota : r.config.quotaFor (UInt32.ofNat i).toNat = some 0) (hchange : Change s i t t') :
    t'.Quiet := by
  cases hchange with
  | stays => exact h
  | spawned | refused => trivial
  | connected => exact ⟨hquota, fun _ _ hwithin ↦ hwithin.elim, fun _ ↦ List.not_mem_nil⟩
  | runs hstep =>
    obtain ⟨hquota, hbelow, hwritten⟩ := h
    have hm := Publisher.move_of_step hstep
    exact ⟨hquota, hbelow.move hm, Publisher.not_publish_of_move hquota hbelow hwritten hm⟩
  | panics hpanic =>
    obtain ⟨-, permits, rfl⟩ := Publisher.panic_eq hpanic
    exact ⟨h.1, fun _ _ hwithin ↦ hwithin.elim, h.2.2⟩

theorem toNat_index_le (i : ℕ) : (UInt32.ofNat i).toNat ≤ i := by
  rw [UInt32.toNat_ofNat']
  exact Nat.mod_le _ _

/-- Where no publisher has anything to send, all stay quiet. -/
theorem always_quiet (h : NothingToSend r.config) (hs : ∀ i, (s.publishers i).Quiet) :
    Always Step s fun t ↦ ∀ i, (t.publishers i).Quiet := by
  refine always_of_invariant hs fun t u ht hstep i ↦ ?_
  have hquota := h _ ((toNat_index_le i).trans_lt i.isLt)
  exact (ht i).change hquota (change_of_move (move_of_step hstep) i)

/-- One that wrote none is in order. -/
theorem PublisherTask.Quiet.not_published {t : PublisherTask} (h : t.Quiet) : ¬t.Published := by
  intro hpublished
  rcases t with - | - | e | ⟨c, p⟩
  all_goals first | exact hpublished.elim | skip
  obtain ⟨m, hm⟩ := hpublished
  exact absurd hm (h.2.2 m)

/-- **Where no publisher has anything to send, a run is orderly.** -/
theorem always_orderly_of_nothingToSend (h : NothingToSend r.config)
    (hs : ∀ i, (s.publishers i).Quiet) : Always Step s Orderly :=
  (always_quiet h hs).mono fun _ hquiet ⟨i, hi⟩ ↦ absurd hi (hquiet i).not_published

/-! ### Publishers that do not wait

The negative half. From a state in which a subscriber is not ready, and a publisher has just been
spawned that has something to send, a run in which the PUBLISH comes first. -/

/-- The first publishers have the most to send. -/
theorem quotaFor_eq_zero {config : Config} {i j : ℕ} (hle : j ≤ i)
    (h : config.quotaFor j = some 0) : config.quotaFor i = some 0 := by
  have hshare : ∀ n, (n / config.publishers + if j < n % config.publishers then 1 else 0) = 0 →
      (n / config.publishers + if i < n % config.publishers then 1 else 0) = 0 := by
    intro n hn
    obtain ⟨hdiv, hrest⟩ := Nat.add_eq_zero_iff.1 hn
    have hj : ¬j < n % config.publishers := fun hlt ↦ by
      rw [if_pos hlt] at hrest
      omega
    rw [hdiv, if_neg (by omega)]
  unfold Config.quotaFor at h ⊢
  rcases hstop : config.stop with n | d | ⟨n, d⟩ <;> rw [hstop] at h
  · exact congrArg some (hshare n (Option.some.inj h))
  · exact h
  · exact congrArg some (hshare n (Option.some.inj h))

/-- A publisher with something to send can connect and send it, whatever the subscribers are
at. -/
theorem can_publish {i : Fin r.config.publishers} (hs : s.publishers i = .connecting)
    (hstop : s.stop = false) (hquota : r.config.quotaFor (UInt32.ofNat i).toNat ≠ some 0) :
    ∃ t, Reaches Step s t ∧ (t.publishers i).Published ∧ t.subscribers = s.subscribers := by
  obtain ⟨t, p, m, ht, hti, hm, -, helsewhere⟩ := reaches_written 0 hs hstop hquota
  exact ⟨t, reaches_of_allowed ht, hti ▸ ⟨m, hm⟩, helsewhere.subscribers⟩

/-- While the subscribers settle, the stop signal is not raised. -/
theorem always_unstopped (r : Setting) :
    Always Step (initial r) fun s ↦ ∀ wake, s.main = .settling wake → s.stop = false := by
  refine always_of_invariant (fun _ _ ↦ rfl) fun t u h hstep ↦ ?_
  cases move_of_step hstep with
  | tick | subscriber | publisher => exact h
  | settle | joinPublishers | drain | joinSubscribers => exact fun _ h ↦ Main.noConfusion h
  | interrupt hne => exact fun wake hmain ↦ absurd hmain (hne wake)

/-! ### The result -/

/-- From the spawning of the publishers on, a run stays orderly exactly if every subscriber is
ready by then or no publisher has anything to send. -/
theorem always_orderly_iff (hs : Reaches Step (initial r) s) (hstep : Step s s')
    (hspawns : Spawns s s') :
    Always Step s' Orderly ↔ AllReady s ∨ NothingToSend r.config := by
  obtain ⟨⟨wake, hmain⟩, hmain'⟩ := hspawns
  have hstop := always_unstopped r s hs wake hmain
  have hm := move_of_step hstep
  have hs' : s'.stop = false ∧ s'.subscribers = s.subscribers ∧
      ∀ i, s'.publishers i = .connecting := by
    cases hm with
    | settle => exact ⟨hstop, rfl, fun _ ↦ rfl⟩
    | tick | subscriber | publisher => exact Main.noConfusion (hmain.symm.trans hmain')
    | interrupt hne => exact absurd hmain (hne wake)
    | joinPublishers h | drain h | joinSubscribers h => exact Main.noConfusion (h.symm.trans hmain)
  obtain ⟨hstop', hsubscribers, hpublishers⟩ := hs'
  constructor
  · intro halways
    by_contra hnot
    obtain ⟨hready, hsend⟩ := not_or.1 hnot
    obtain ⟨i, hi, hquota⟩ : ∃ i < r.config.publishers, r.config.quotaFor i ≠ some 0 := by
      simpa only [NothingToSend, not_forall, exists_prop] using hsend
    obtain ⟨t, ht, hpublished, htsubscribers⟩ := can_publish (hpublishers ⟨i, hi⟩) hstop'
      fun hzero ↦ hquota (quotaFor_eq_zero (toNat_index_le i) hzero)
    have hreadyAt := halways t ht ⟨_, hpublished⟩
    refine hready fun j ↦ ?_
    rw [← hsubscribers, ← htsubscribers]
    exact hreadyAt j
  · rintro (hready | hsend)
    · exact (hready.step hstep).always
    · refine always_orderly_of_nothingToSend hsend fun i ↦ ?_
      rw [hpublishers i]
      trivial

/-- The settle time can run out before any subscriber has connected. -/
theorem eq_zero_or_nothingToSend (h : Always Step (initial r) Orderly) :
    r.config.subscribers = 0 ∨ NothingToSend r.config := by
  have hreaches := reaches_of_allowed (reaches_settled r)
  have hspawned := step_of_allowed (step_spawned r)
  have halways := h.of_reaches (hreaches.tail hspawned)
  refine ((always_orderly_iff hreaches hspawned ⟨⟨_, rfl⟩, rfl⟩).1 halways).imp_left fun hready ↦ ?_
  by_contra hne
  exact hready ⟨0, Nat.pos_of_ne_zero hne⟩

/-- **A run is orderly exactly if the publishers are spawned when every subscriber is ready, or
have nothing to send.** So a run that waits for the subscribers is orderly; and every run of a
configuration is only if there are no subscribers, or nothing to send. -/
theorem orderly_iff (r : Setting) :
    Always PatientStep (initial r) Orderly ∧
    (∀ s s' : State r, Reaches Step (initial r) s → Step s s' → Spawns s s' →
      (Always Step s' Orderly ↔ AllReady s ∨ NothingToSend r.config)) ∧
    (Always Step (initial r) Orderly ↔
      r.config.subscribers = 0 ∨ NothingToSend r.config) := by
  refine ⟨always_orderly_of_patient r, fun _ _ ↦ always_orderly_iff, eq_zero_or_nothingToSend, ?_⟩
  rintro (hnone | hsend)
  · have hready : AllReady (initial r) := fun j ↦ absurd j.isLt (by omega)
    exact hready.always
  · exact always_orderly_of_nothingToSend hsend fun _ ↦ trivial

/-- One subscriber, and one publisher of ten messages. -/
def pair : Setting where
  config := {
    publishers := 1
    subscribers := 1
    topicPrefix := "bench"
    qos := .atLeastOnce
    payloadSize := 16
    stop := .count 10
    rate := none
    inflight := 100
    warmup := 0
    drain := 0 }
  baseline := 0
  schedule _ _ := none

/-- A subscriber that takes longer than the settle time to connect misses the first messages. -/
theorem not_orderly_pair : ¬Always Step (initial pair) Orderly := by
  intro halways
  rcases eq_zero_or_nothingToSend halways with hnone | hsend
  · exact absurd hnone (by decide)
  · exact absurd (hsend 0 (by decide)) (by decide)

end Run

end Bench

end PulsemqCli
