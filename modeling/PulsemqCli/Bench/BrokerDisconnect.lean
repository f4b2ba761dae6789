import PulsemqCli.Bench.Readiness
import PulsemqCli.Bench.Report

/-!
# A DISCONNECT from the broker

A broker that gives a connection up says why in a DISCONNECT. A subscriber's receive loop fails
with its Reason Code, and the report names the task. A publisher's ack side has no case for it: the
packet is passed over, and the publisher returns what it would have returned without it.

Both kinds of connection are treated alike in the statement: a connection that reads a DISCONNECT
with an error has left the run, and the report should say so under its name. For subscribers this
follows from the task's result, which stays what it is until it is joined (`Bench.Report`). For
publishers a run is built that hides one: the broker lets the connection go before anything was
sent, and the report is a success.

That is possible with any publisher of any configuration; the exact condition is on the run.
-/

namespace PulsemqCli

namespace Bench

namespace Run

open Protocol Transition

/-- A connection of a run. -/
inductive Connection (r : Setting) where
  | subscriber (j : Fin r.config.subscribers)
  | publisher (i : Fin r.config.publishers)

namespace Connection

variable {r : Setting}

/-- The role the report names the connection by. -/
def role : Connection r → String
  | .subscriber _ => "subscriber"
  | .publisher _ => "publisher"

/-- Its number among the connections of its role. -/
def index : Connection r → ℕ
  | .subscriber j => j
  | .publisher i => i

/-- What its task has returned, if it has. -/
def result (display : Error → String) (s : State r) :
    Connection r → Option (Except Error (List ℕ))
  | .subscriber j => (s.subscribers j).result
  | .publisher i => (s.publishers i).result display

end Connection

variable {r : Setting} {s t u u' : State r} {a : Act r}

/-- The write side has disconnected, or has returned without. -/
def HasLeft : Publisher.Phase → Prop
  | .joining _ | .returned _ => True
  | _ => False

/-- A connection that is not ended yet reads a DISCONNECT with an error Reason Code. A subscriber
does so in its receive loop, which begins with the SUBACK. -/
inductive ReadsDisconnect (s : State r) : Act r → Connection r → Prop where
  | subscriber {j : Fin r.config.subscribers} {code : ReasonCode} {l : Subscriber.Received}
      {w : Net} : code.isError = true → s.subscribers j = .receiving (.reading l) w →
      ReadsDisconnect s (.subscriber j (.hear (.packet (.disconnect code)))) (.subscriber j)
  | publisher {i : Fin r.config.publishers} {c : Publisher.Setting} {p : Publisher.State}
      {code : ReasonCode} {rest : List Publisher.Inbound} : code.isError = true →
      s.publishers i = .running c p → ¬HasLeft p.phase → p.ack = .reading →
      p.inbound = .packet (.disconnect code) :: rest →
      ReadsDisconnect s (.publisher i (.act .acknowledge)) (.publisher i)

/-- The task of a connection failed, the report names it, and the run is no success. -/
def Reported (display : Error → String) (s : State r) (k : Connection r) : Prop :=
  ∃ e, k.result display s = some (.error e) ∧
    k.role ++ " " ++ toString k.index ++ ": " ++ display e ∈ (s.report display).taskFailures ∧
    (s.report display).success = false

/-- In every run of allowed acts, a connection that read a DISCONNECT with an error Reason Code is
reported. -/
def NeverHidden (display : Error → String) (allowed : State r → Act r → Prop) : Prop :=
  ∀ k u a u' s, Reaches (AllowedStep allowed) (initial r) u → allowed u a →
    step u a = some u' → ReadsDisconnect u a k → Reaches (AllowedStep allowed) u' s →
    s.main = .reported → Reported display s k

/-! ### Subscribers -/

/-- A subscriber fails with the DISCONNECT it reads. -/
theorem ended_of_reads {j : Fin r.config.subscribers} (h : step u a = some u')
    (hreads : ReadsDisconnect u a (.subscriber j)) :
    ∃ e, u'.subscribers j = .ended (.error e) := by
  cases hreads with
  | @subscriber j code l w _ htask =>
    have hstep : (u.subscribers j).step r (.ofNat j) u.clock u.stop
        (.hear (.packet (.disconnect code))) = some (.ended (.error
          (.rejected ("subscriber " ++ toString (UInt32.ofNat j).toNat) code))) := by
      rw [htask]
      rfl
    simp only [step, hstep, Option.map_some, Option.some.injEq] at h
    subst h
    exact ⟨_, Function.update_self j _ _⟩

/-- What a subscriber returned it has returned for good. -/
theorem subscriber_of_reaches {j : Fin r.config.subscribers} {result : Except Error (List ℕ)}
    (h : Reaches Step s t) (hended : s.subscribers j = .ended result) :
    t.subscribers j = .ended result := by
  induction h with
  | refl => exact hended
  | tail _ hstep ih =>
    refine (subscriber_stays_of_move (move_of_step hstep) ?_).trans ih
    rw [ih]
    rfl

/-- A subscriber that failed is reported. -/
theorem reported_of_ended {display : Error → String} {j : Fin r.config.subscribers} {e : Error}
    (h : s.subscribers j = .ended (.error e)) : Reported display s (.subscriber j) := by
  have hresults : s.subscriberResults[(j : ℕ)]? = some (.error e) := by
    simp [State.subscriberResults, h, SubscriberTask.result]
  have hmem : "subscriber" ++ " " ++ toString (j : ℕ) ++ ": " ++ display e ∈
      (s.report display).taskFailures :=
    List.mem_append_right _ (mem_collectFailures hresults)
  refine ⟨e, ?_, hmem, ?_⟩
  · show (s.subscribers j).result = some (.error e)
    rw [h]
    rfl
  · have hfailures : (s.report display).taskFailures.isEmpty = false :=
      List.isEmpty_eq_false_iff_exists_mem.2 ⟨_, hmem⟩
    rw [Report.success, hfailures, Bool.false_and, Bool.false_and]

/-- **A subscriber's DISCONNECT is reported.** -/
theorem reported_of_reads {display : Error → String} {j : Fin r.config.subscribers}
    (hstep : step u a = some u') (hreads : ReadsDisconnect u a (.subscriber j))
    (hs : Reaches Step u' s) : Reported display s (.subscriber j) := by
  obtain ⟨e, he⟩ := ended_of_reads hstep hreads
  exact reported_of_ended (subscriber_of_reaches hs he)

/-! ### Publishers -/

/-- A publisher that is stopped before it sends anything, past its send loop. -/
theorem reaches_waiting {c : Publisher.Setting} {p : Publisher.State}
    (hphase : p.phase = .draining .top) (hpubrels : p.pubrels = []) (hstop : p.stop = true)
    (hwindow : p.windowClosed = false) :
    Reaches (Publisher.Served c) p
      { p with phase := .waiting (p.clock + Publisher.drainTime) } := by
  let p₁ : Publisher.State := { p with phase := .checkingQuota }
  let p₂ : Publisher.State := { p with phase := .checkingStop }
  let p₃ : Publisher.State := { p with phase := .waiting (p.clock + Publisher.drainTime) }
  have hleave : Publisher.leave p₁ = p₃ ∧ Publisher.leave p₂ = p₃ := by
    simp only [Publisher.leave, p₁, p₂, p₃, hwindow]
    exact ⟨rfl, rfl⟩
  have hdrained : Publisher.step c p .advance = some p₁ := by
    simp only [Publisher.step, Publisher.advance, hphase, hpubrels, Publisher.drained, p₁]
  refine Publisher.served_step _ hdrained trivial ?_
  by_cases hquota : c.quota.any (· ≤ p.sent) = true
  · have hreached : Publisher.step c p₁ .advance = some p₃ := by
      rw [← hleave.1]
      exact if_pos hquota
    exact Publisher.served_step _ hreached trivial .refl
  · have hbelow : Publisher.step c p₁ .advance = some p₂ := if_neg hquota
    have hstopped : Publisher.step c p₂ .advance = some p₃ := by
      rw [← hleave.2]
      exact if_pos hstop
    exact Publisher.served_step _ hbelow trivial
      (Publisher.served_step _ hstopped trivial .refl)

/-- From there it disconnects, and returns success once the broker has closed its half. -/
theorem reaches_returned {c : Publisher.Setting} {p : Publisher.State} {deadline : ℕ}
    (hphase : p.phase = .waiting deadline) (hpubrels : p.pubrels = []) (hinFlight : p.inFlight = ∅)
    (hwindow : p.windowClosed = false) (hack : p.ack = .reading) (hinbound : p.inbound = []) :
    ∃ p', Reaches (Publisher.Served c) p p' ∧ p'.phase = .returned (.ok p.samples) := by
  let p₁ : Publisher.State := { p with phase := .draining .last }
  let p₂ : Publisher.State := { p with phase := .disconnecting }
  let p₃ : Publisher.State := Publisher.join c { p with
    written := p.written ++ [.disconnect .success] }
  let p₄ : Publisher.State := { p₃ with inbound := [.eof] }
  let p₅ : Publisher.State := { p₃ with ack := .closing none }
  let p₆ : Publisher.State := { p₃ with closed := true, ack := .finished none }
  let p₇ : Publisher.State := { p₆ with phase := .returned (.ok p.samples) }
  have hsettled : Publisher.step c p .advance = some p₁ := by
    simp only [Publisher.step, Publisher.advance, hphase]
    exact if_pos (Or.inl hinFlight)
  have hdrained : Publisher.step c p₁ .advance = some p₂ := by
    simp only [Publisher.step, Publisher.advance, p₁, hpubrels, Publisher.drained, p₂]
  have hdisconnect : Publisher.step c p₂ .advance = some p₃ := rfl
  have hdeliver : Publisher.step c p₃ (.deliver .eof) = some p₄ := by
    simp only [Publisher.step, p₃, p₄, Publisher.join, hinbound, List.nil_append]
  have heof : Publisher.step c p₄ .acknowledge = some p₅ := by
    simp only [Publisher.step, Publisher.acknowledge, p₄, p₃, p₅, Publisher.join, hack, ← hinbound]
  have hclose : Publisher.step c p₅ .acknowledge = some p₆ := rfl
  have hjoined : Publisher.step c p₆ .advance = some p₇ := by
    simp only [Publisher.step, Publisher.advance, p₆, p₃, p₇, Publisher.join, Publisher.result,
      hwindow]
    rfl
  exact ⟨p₇, Publisher.served_step _ hsettled trivial (Publisher.served_step _ hdrained trivial
    (Publisher.served_step _ hdisconnect trivial (Publisher.served_step _ hdeliver trivial
      (Publisher.served_step _ heof trivial (Publisher.served_step _ hclose trivial
        (Publisher.served_step _ hjoined trivial .refl)))))), rfl⟩

/-- **A publisher can hide the DISCONNECT it reads.** -/
theorem not_neverHidden (display : Error → String) (i : Fin r.config.publishers) :
    ¬NeverHidden display fun (_ : State r) _ ↦ True := by
  let s₁ : State r := (spawned r).raiseStop
  let c : Publisher.Setting := r.publisher i none s₁.clock
  let p : Publisher.State := { Publisher.initial c s₁.clock with stop := true }
  let x : Publisher.Inbound := .packet (.disconnect .notAuthorized)
  let s₂ : State r := { s₁ with publishers := Function.update s₁.publishers i (.running c p) }
  let u : State r := { s₂ with
    publishers := Function.update s₂.publishers i (.running c { p with inbound := [x] }) }
  let u' : State r := { u with publishers := Function.update u.publishers i (.running c p) }
  have hstopped : Step (spawned r) s₁ := ⟨.interrupt, rfl⟩
  have hconnected : Step s₁ s₂ := step_of_allowed (step_connected none rfl)
  have hs₂ : s₂.publishers i = .running c p := Function.update_self i _ _
  have hdelivered : Step s₂ u := ⟨.publisher i (.act (.deliver x)), step_act hs₂ rfl rfl⟩
  have hu : u.publishers i = .running c { p with inbound := [x] } := Function.update_self i _ _
  have hread : step u (.publisher i (.act .acknowledge)) = some u' := step_act hu rfl rfl
  have hreads : ReadsDisconnect u (.publisher i (.act .acknowledge)) (.publisher i) :=
    .publisher (by decide) hu id rfl rfl
  have hu' : u'.publishers i = .running c p := Function.update_self i _ _
  have hwaiting := reaches_waiting (c := c) (p := p) rfl rfl rfl rfl
  obtain ⟨p', hp', hphase⟩ := reaches_returned (c := c) (p := { p with
    phase := .waiting (p.clock + Publisher.drainTime) }) rfl rfl rfl rfl rfl rfl
  obtain ⟨t, ht, hti, helsewhere⟩ := reaches_of_publisher (hwaiting.trans hp') hu'
  have hprepared : Elsewhere i s₁ u' :=
    ((elsewhere_update i s₁ _).trans (elsewhere_update i s₂ _)).trans (elsewhere_update i u _)
  have hmoved : Elsewhere i s₁ t := hprepared.trans helsewhere
  have hended : (t.publishers i).isEnded = true := by
    rw [hti]
    exact PublisherTask.isEnded_iff.2 (Or.inr ⟨c, p', _, rfl, hphase⟩)
  obtain ⟨v, nanos, hv, hmain, hvi⟩ := reaches_reported hmoved.main hended
    (fun j hj ↦ hmoved.publishers j hj rfl) fun j ↦ congrFun hmoved.subscribers j
  have hresult : (v.publishers i).result display = some (.ok p.samples) := by
    rw [hvi, hti]
    simp only [PublisherTask.update, PublisherTask.result, hphase]
    rfl
  intro hnever
  have hany : ∀ {s t : State r}, Reaches Step s t → Reaches (AllowedStep fun _ _ ↦ True) s t :=
    reaches_allowed _ fun _ _ ↦ trivial
  obtain ⟨e, he, -⟩ := hnever (.publisher i) u _ u' v
    (hany ((((reaches_of_allowed (reaches_spawned r)).tail hstopped).tail hconnected).tail
      hdelivered)) trivial hread hreads (hany ((reaches_of_allowed ht).trans hv)) hmain
  change (v.publishers i).result display = some (.error e) at he
  rw [hresult] at he
  cases he

/-! ### The result -/

/-- **A DISCONNECT from the broker is reported** in every run in which no publisher reads one with
an error Reason Code before it has disconnected itself; in every run of a configuration only if
there are no publishers. -/
theorem neverHidden_iff (display : Error → String) (r : Setting) :
    NeverHidden display (fun (s : State r) a ↦ ∀ i, ¬ReadsDisconnect s a (.publisher i)) ∧
      (NeverHidden display (fun (_ : State r) _ ↦ True) ↔ r.config.publishers = 0) := by
  refine ⟨fun k u a u' s _ hallowed hstep hreads hs _ ↦ ?_, fun hnever ↦ ?_, ?_⟩
  · cases k with
    | subscriber j => exact reported_of_reads hstep hreads (reaches_of_allowed hs)
    | publisher i => exact absurd hreads (hallowed i)
  · by_contra hne
    exact not_neverHidden display ⟨0, Nat.pos_of_ne_zero hne⟩ hnever
  · intro hnone k u a u' s _ _ hstep hreads hs _
    cases k with
    | subscriber j => exact reported_of_reads hstep hreads (reaches_of_allowed hs)
    | publisher i => exact absurd i.isLt (by omega)

/-- One publisher of ten messages, and no subscriber. -/
def single : Setting :=
  { pair with config := { pair.config with subscribers := 0 } }

/-- The publisher is sent a DISCONNECT (Not authorized), reads it, and returns success. -/
theorem not_neverHidden_single :
    ¬NeverHidden (fun _ ↦ "") fun (_ : State single) _ ↦ True :=
  not_neverHidden _ ⟨0, by decide⟩

end Run

end Bench

end PulsemqCli
