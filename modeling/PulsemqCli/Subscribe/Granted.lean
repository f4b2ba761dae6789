import PulsemqCli.Bench.Subscriber

/-!
# What a SUBACK has to say

`subscribe` and the subscriber of a benchmark each wait for a SUBACK in a loop of their own, and
fail if it has a Reason Code that is an error. Neither looks at its Packet Identifier, and neither
at how many codes it has: `zip` ends with the shorter of its two lists, and a list without a code
has none that is an error.

Both waits are instances of one: a loop that passes over some stimuli and is answered by the first
other one. `Awaits` says of a loop body that it is such a wait, with the stimuli it passes over and
the SUBACKs it accepts as parameters, and `Awaits.reactTo_eq_ok_iff` says exactly when it returns.
What is left of each of the two functions is to give the parameters.

So the question whether a return means that the filters are granted is about one SUBACK, and
`grants_iff` answers it: it is accepted without its identifier being looked at, and a code that is
missing is not an error. Both waits can be answered by a SUBACK that is not theirs, if one is there
to be read before it.
-/

namespace PulsemqCli

namespace Subscribe

open Reactive Protocol Client

variable {σ α : Type} {body : σ → Stimulus → Command (σ ⊕ α)} {passes : Stimulus → Prop}
  {accepts : SubAck → Prop}

/-! ### Waits for a SUBACK

A wait takes the first stimulus it does not pass over. If that is a SUBACK it accepts, the wait
returns; otherwise it fails, or still waits where there is none. -/

/-- What is logged of a stimulus. -/
def heard : Stimulus → List Event
  | .packet p => [.received p]
  | _ => []

/-- A loop that passes over some stimuli until a SUBACK comes, and returns if it accepts it. -/
structure Awaits (body : σ → Stimulus → Command (σ ⊕ α)) (passes : Stimulus → Prop)
    (accepts : SubAck → Prop) : Prop where
  pass : ∀ s x w, passes x →
    ∃ s', body s x w = .ok (.inl s') { w with log := w.log ++ heard x }
  accept : ∀ s ack w, accepts ack →
    ∃ a, body s (.packet (.suback ack)) w =
      .ok (.inr a) { w with log := w.log ++ heard (.packet (.suback ack)) }
  refuse : ∀ s x w, ¬passes x → (∀ ack, x = .packet (.suback ack) → ¬accepts ack) →
    ∀ r w', body s x w ≠ .ok r w'
  suback : ∀ ack, ¬passes (.packet (.suback ack))

/-- The stimuli begin with one that ends the wait for `ack`, after some that are passed over. -/
def Answered (passes : Stimulus → Prop) (ack : SubAck) (before rest xs : List Stimulus) : Prop :=
  xs = before ++ .packet (.suback ack) :: rest ∧ ∀ x ∈ before, passes x

theorem not_answered_nil {ack : SubAck} {before rest : List Stimulus} :
    ¬Answered passes ack before rest [] := by
  rintro ⟨hxs, -⟩
  cases before <;> cases hxs

/-- A stimulus that is passed over comes before the answer. -/
theorem answered_cons_iff {ack : SubAck} {before rest xs : List Stimulus} {x : Stimulus}
    (hx : passes x) (hack : ¬passes (.packet (.suback ack))) :
    Answered passes ack before rest (x :: xs) ↔
      ∃ before', before = x :: before' ∧ Answered passes ack before' rest xs := by
  constructor
  · rintro ⟨hxs, hbefore⟩
    cases before with
    | nil =>
      obtain ⟨rfl, -⟩ := List.cons.inj hxs
      exact absurd hx hack
    | cons y before =>
      obtain ⟨rfl, rfl⟩ := List.cons.inj hxs
      exact ⟨before, rfl, rfl, (List.forall_mem_cons.1 hbefore).2⟩
  · rintro ⟨before', rfl, rfl, hbefore⟩
    exact ⟨rfl, List.forall_mem_cons.2 ⟨hx, hbefore⟩⟩

/-- One that is not passed over is the answer. -/
theorem answered_cons_iff_of_not {ack : SubAck} {before rest xs : List Stimulus} {x : Stimulus}
    (hx : ¬passes x) :
    Answered passes ack before rest (x :: xs) ↔
      before = [] ∧ x = .packet (.suback ack) ∧ rest = xs := by
  constructor
  · rintro ⟨hxs, hbefore⟩
    cases before with
    | nil =>
      obtain ⟨rfl, rfl⟩ := List.cons.inj hxs
      exact ⟨rfl, rfl, rfl⟩
    | cons y before =>
      obtain ⟨rfl, rfl⟩ := List.cons.inj hxs
      exact absurd (List.forall_mem_cons.1 hbefore).1 hx
  · rintro ⟨rfl, rfl, rfl⟩
    exact ⟨rfl, fun x hx ↦ absurd hx List.not_mem_nil⟩

/-- **A wait returns exactly if it is answered with a SUBACK that it accepts**; it has read this
and what came before. -/
theorem Awaits.reactTo_eq_ok_iff (h : Awaits body passes accepts) (xs : List Stimulus) (s : σ)
    (w w' : Net) :
    (∃ a, reactTo body xs s w = .ok a w') ↔ ∃ ack before rest,
      Answered passes ack before rest xs ∧ accepts ack ∧
        w' = { w with
          inbox := rest
          log := w.log ++ (before.flatMap heard ++ [.received (.suback ack)]) } := by
  induction xs generalizing s w with
  | nil =>
    refine iff_of_false ?_ ?_
    · rintro ⟨a, ha⟩
      cases ha
    · rintro ⟨ack, before, rest, hanswered, -⟩
      exact not_answered_nil hanswered
  | cons x xs ih =>
    by_cases hx : passes x
    · obtain ⟨s', hs'⟩ := h.pass s x { w with inbox := xs } hx
      have hrest : ∀ a, reactTo body (x :: xs) s w = .ok a w' ↔
          reactTo body xs s' { w with inbox := xs, log := w.log ++ heard x } = .ok a w' := by
        intro a
        rw [reactTo_cons_eq_ok]
        refine ⟨?_, fun ha ↦ ⟨_, _, hs', ha⟩⟩
        rintro ⟨r, v, hr, ha⟩
        cases hs'.symm.trans hr
        exact ha
      simp only [hrest, ih, answered_cons_iff hx (h.suback _)]
      constructor
      · rintro ⟨ack, before, rest, hanswered, haccepts, rfl⟩
        exact ⟨ack, x :: before, rest, ⟨before, rfl, hanswered⟩, haccepts, by simp⟩
      · rintro ⟨ack, -, rest, ⟨before, rfl, hanswered⟩, haccepts, rfl⟩
        exact ⟨ack, before, rest, hanswered, haccepts, by simp⟩
    · simp only [answered_cons_iff_of_not hx]
      constructor
      · rintro ⟨a, ha⟩
        obtain ⟨r, v, hr, hout⟩ := reactTo_cons_eq_ok.1 ha
        by_cases hack : ∃ ack, x = .packet (.suback ack) ∧ accepts ack
        · obtain ⟨ack, rfl, haccepts⟩ := hack
          obtain ⟨b, hb⟩ := h.accept s ack { w with inbox := xs } haccepts
          cases hb.symm.trans hr
          obtain ⟨-, rfl⟩ := hout
          exact ⟨ack, [], xs, ⟨rfl, rfl, rfl⟩, haccepts, rfl⟩
        · exact absurd hr (h.refuse s x _ hx (fun ack hx' haccepts ↦ hack ⟨ack, hx', haccepts⟩) r v)
      · rintro ⟨ack, _, rest, ⟨rfl, rfl, rfl⟩, haccepts, rfl⟩
        obtain ⟨b, hb⟩ := h.accept s ack { w with inbox := rest } haccepts
        exact ⟨b, reactTo_cons_eq_ok.2 ⟨_, _, hb, rfl, rfl⟩⟩

/-! ### Grants

Accepting is weaker than being granted in two ways: the identifier is not compared, and codes can be
missing. -/

/-- The SUBACK carries the identifier, and has a Reason Code that is not an error at each of the
first `n` positions. -/
def Grants (id : PacketId) (n : ℕ) (ack : SubAck) : Prop :=
  ack.packetId = id ∧ ∀ i < n, ∃ code, ack.reasonCodes[i]? = some code ∧ code.isError = false

/-- The process returns only if it has read a SUBACK that grants all `n` filters. -/
def GrantedIfOk (id : PacketId) (n : ℕ) (m : Command α) (w : Net) : Prop :=
  ∀ a w', m w = .ok a w' → ∃ ack, .received (.suback ack) ∈ afterwards m w ∧ Grants id n ack

/-- A SUBACK without an error that answers the wait carries the identifier, and has a code for each
filter. -/
def AnsweredFully (passes : Stimulus → Prop) (accepts : SubAck → Prop) (id : PacketId) (n : ℕ)
    (xs : List Stimulus) : Prop :=
  ∀ ack before rest, Answered passes ack before rest xs → accepts ack →
    ack.packetId = id ∧ n ≤ ack.reasonCodes.length

/-- The next write succeeds. -/
def CanWrite (w : Net) : Prop :=
  w.store.fault w.store.writes = none

/-- A write returns where the connection takes it. -/
theorem send_eq_ok_iff {p : Packet} {w w' : Net} :
    (∃ u, send p w = .ok u w') ↔ CanWrite w ∧ w' = w.wrote p := by
  rw [send_eq, CanWrite]
  cases w.store.fault w.store.writes with
  | none =>
    constructor
    · rintro ⟨u, hu⟩
      cases hu
      exact ⟨rfl, rfl⟩
    · rintro ⟨-, rfl⟩
      exact ⟨(), rfl⟩
  | some e =>
    constructor
    · rintro ⟨u, hu⟩
      cases hu
    · rintro ⟨h, -⟩
      cases h

/-- A SUBACK that is accepted grants all filters exactly if it carries the identifier, and has
enough codes. -/
theorem grants_iff {id : PacketId} {n : ℕ} {ack : SubAck}
    (h : ∀ i < n, ∀ code, ack.reasonCodes[i]? = some code → code.isError = false) :
    Grants id n ack ↔ ack.packetId = id ∧ n ≤ ack.reasonCodes.length := by
  refine and_congr_right fun _ ↦ ⟨fun hall ↦ ?_, fun hlength i hi ↦ ?_⟩
  · by_contra hlt
    obtain ⟨code, hcode, -⟩ := hall _ (not_le.1 hlt)
    rw [List.getElem?_eq_none le_rfl] at hcode
    cases hcode
  · exact ⟨_, List.getElem?_eq_getElem (hi.trans_le hlength),
      h i hi _ (List.getElem?_eq_getElem (hi.trans_le hlength))⟩

/-- What was heard of stimuli that are passed over has no SUBACK. -/
theorem suback_notMem_heard (h : ∀ ack, ¬passes (.packet (.suback ack))) {before : List Stimulus}
    (hbefore : ∀ x ∈ before, passes x) (ack : SubAck) :
    .received (.suback ack) ∉ before.flatMap heard := by
  intro hmem
  obtain ⟨x, hx, hack⟩ := List.mem_flatMap.1 hmem
  cases x with
  | packet p =>
    cases List.mem_singleton.1 hack
    exact h ack (hbefore _ hx)
  | _ => cases hack

/-- **A SUBSCRIBE and the wait for its SUBACK.** -/
theorem grantedIfOk_iff (h : Awaits body passes accepts) {id : PacketId} {n : ℕ}
    (hcodes : ∀ ack, accepts ack →
      ∀ i < n, ∀ code, ack.reasonCodes[i]? = some code → code.isError = false)
    (p : Packet) (s : σ) (w : Net) :
    GrantedIfOk id n (send p >>= fun _ ↦ react body s) w ↔
      (CanWrite w → AnsweredFully passes accepts id n w.inbox) := by
  have hok : ∀ w', (∃ a, (send p >>= fun _ ↦ react body s) w = .ok a w') ↔
      CanWrite w ∧ ∃ ack before rest, Answered passes ack before rest w.inbox ∧ accepts ack ∧
        w' = { w.wrote p with
          inbox := rest
          log := w.log ++ ([.sent p] ++ (before.flatMap heard ++ [.received (.suback ack)])) } := by
    intro w'
    have hreact : (∃ a, react body s (w.wrote p) = .ok a w') ↔ ∃ ack before rest,
        Answered passes ack before rest w.inbox ∧ accepts ack ∧ w' = { w.wrote p with
          inbox := rest
          log := (w.wrote p).log ++ (before.flatMap heard ++ [.received (.suback ack)]) } :=
      h.reactTo_eq_ok_iff w.inbox s (w.wrote p) w'
    simp only [Net.wrote_log, List.append_assoc] at hreact
    rw [← hreact]
    simp only [bind_eq_ok]
    constructor
    · rintro ⟨a, u, v, hsend, ha⟩
      obtain ⟨hwrite, rfl⟩ := send_eq_ok_iff.1 ⟨u, hsend⟩
      exact ⟨hwrite, a, ha⟩
    · rintro ⟨hwrite, a, ha⟩
      obtain ⟨u, hu⟩ := send_eq_ok_iff.2 ⟨hwrite, rfl⟩
      exact ⟨a, u, _, hu, ha⟩
  constructor
  · intro hgranted hwrite ack before rest hanswered haccepts
    obtain ⟨a, ha⟩ := (hok _).2 ⟨hwrite, ack, before, rest, hanswered, haccepts, rfl⟩
    obtain ⟨ack', hmem, hgrants⟩ := hgranted a _ ha
    rw [afterwards_of_log (by rw [ha]; rfl)] at hmem
    have hsame : ack' = ack := by
      rcases List.mem_append.1 hmem with hmem | hmem
      · cases List.mem_singleton.1 hmem
      · rcases List.mem_append.1 hmem with hmem | hmem
        · exact absurd hmem (suback_notMem_heard h.suback hanswered.2 ack')
        · cases List.mem_singleton.1 hmem
          rfl
    rw [hsame] at hgrants
    exact (grants_iff (hcodes ack haccepts)).1 hgrants
  · intro hfully a w' ha
    obtain ⟨hwrite, ack, before, rest, hanswered, haccepts, rfl⟩ := (hok w').1 ⟨a, ha⟩
    refine ⟨ack, ?_, (grants_iff (hcodes ack haccepts)).2
      (hfully hwrite ack before rest hanswered haccepts)⟩
    rw [afterwards_of_log (by rw [ha]; rfl)]
    simp

/-! ### `subscribe::subscribe` -/

/-- What `subscribe` passes over while it waits. -/
def PassedOver : Stimulus → Prop
  | .packet (.suback _) | .packet (.disconnect _) | .eof | .readError _ => False
  | _ => True

/-- No filter is paired with an error. -/
def NoneRefused (filters : List String) (ack : SubAck) : Prop :=
  ∀ grant ∈ filters.zip ack.reasonCodes, grant.2.isError = false

/-- A list of grants without an error passes the check. -/
theorem checkGrants_of_granted {grants : List (String × ReasonCode)}
    (h : ∀ grant ∈ grants, grant.2.isError = false) : checkGrants grants = return () := by
  induction grants with
  | nil => rfl
  | cons grant grants ih =>
    obtain ⟨hgrant, hgrants⟩ := List.forall_mem_cons.1 h
    rw [checkGrants, hgrant]
    exact ih hgrants

/-- And one with an error does not. -/
theorem checkGrants_ne_ok {grants : List (String × ReasonCode)}
    (h : ¬∀ grant ∈ grants, grant.2.isError = false) (u : Unit) (w w' : Net) :
    checkGrants grants w ≠ .ok u w' := by
  induction grants with
  | nil => exact absurd (fun grant hgrant ↦ absurd hgrant List.not_mem_nil) h
  | cons grant grants ih =>
    rw [checkGrants]
    by_cases hgrant : grant.2.isError = true
    · rw [if_pos hgrant]
      exact fun hok ↦ by cases hok
    · rw [if_neg hgrant]
      exact ih fun hgrants ↦
        h (List.forall_mem_cons.2 ⟨Bool.not_eq_true _ ▸ hgrant, hgrants⟩)

/-- `subscribe` is such a wait. It accepts a SUBACK none of whose codes, as far as there are filters
for them, is an error. -/
theorem awaits_subscribe (filters : List String) :
    Awaits (fun s ↦ recv (awaitSubAck filters) s) PassedOver (NoneRefused filters) where
  pass s x w hx := by
    cases x with
    | packet p =>
      cases p with
      | suback | disconnect => exact hx.elim
      | _ => exact ⟨_, rfl⟩
    | eof | readError => exact hx.elim
    | idle | stop => exact ⟨(), by simp only [heard, List.append_nil]; rfl⟩
  accept s ack w haccepts := by
    refine ⟨(), ?_⟩
    show (do checkGrants _; return .inr () : Command (Unit ⊕ Unit)) _ = _
    rw [checkGrants_of_granted haccepts]
    rfl
  refuse s x w hx hrefuses r w' hok := by
    cases x with
    | packet p =>
      cases p with
      | suback ack =>
        obtain ⟨u, v, hu, -⟩ := bind_eq_ok.1
          (show (do checkGrants (filters.zip ack.reasonCodes); return .inr () :
            Command (Unit ⊕ Unit)) (Net.read w (.suback ack)) = .ok r w' from hok)
        exact checkGrants_ne_ok (hrefuses ack rfl) u _ v hu
      | disconnect => cases hok
      | _ => exact hx trivial
    | eof | readError => cases hok
    | idle | stop => exact hx trivial
  suback _ h := h

/-! ### `bench::subscriber::run` -/

/-- What the subscriber of a benchmark passes over while it waits. -/
def PassedOverByBench : Stimulus → Prop
  | .packet (.suback _) | .eof | .readError _ => False
  | _ => True

/-- No Reason Code is an error. -/
def NoErrors (ack : SubAck) : Prop :=
  ∀ code ∈ ack.reasonCodes, code.isError = false

end Subscribe

namespace Bench

namespace Subscriber

open Reactive Protocol Client Subscribe

/-- `run` up to its SUBACK; it returns whether the stop signal was raised meanwhile. -/
def untilSubAck (index : ℕ) (config : Config) : Command Bool := do
  send (.subscribe (subscribePacket config))
  react (awaitSubAck index) false

/-- A subscriber waits for its SUBACK, and then receives unless it was stopped. -/
theorem run_eq (index : ℕ) (config : Config) (t : Timing) :
    run index config t = (do
      let stopped ← untilSubAck index config
      if stopped then return []
      receive index t) := by
  simp only [run, untilSubAck, bind_assoc]

/-- The subscriber's wait is another. It accepts a SUBACK none of whose codes is an error. -/
theorem awaits_untilSubAck (index : ℕ) :
    Awaits (awaitSubAck index) PassedOverByBench NoErrors where
  pass s x w hx := by
    cases x with
    | packet p =>
      cases p with
      | suback => exact hx.elim
      | _ => exact ⟨_, rfl⟩
    | eof | readError => exact hx.elim
    | idle | stop => exact ⟨_, by simp only [heard, List.append_nil]; rfl⟩
  accept s ack w haccepts := by
    have hnone : ack.reasonCodes.find? ReasonCode.isError = none :=
      List.find?_eq_none.2 fun code hcode ↦ by simp [haccepts code hcode]
    refine ⟨s, ?_⟩
    simp only [awaitSubAck, hnone]
    rfl
  refuse s x w hx hrefuses r w' hok := by
    cases x with
    | packet p =>
      cases p with
      | suback ack =>
        simp only [awaitSubAck] at hok
        cases hfind : ack.reasonCodes.find? ReasonCode.isError with
        | none =>
          exact hrefuses ack rfl fun code hcode ↦
            Bool.eq_false_iff.2 (List.find?_eq_none.1 hfind code hcode)
        | some code =>
          rw [hfind] at hok
          cases hok
      | _ => exact hx trivial
    | eof | readError => cases hok
    | idle | stop => exact hx trivial
  suback _ h := h

end Subscriber

end Bench

namespace Subscribe

open Reactive Protocol Client

/-- **Subscribing succeeds only if every filter was granted**, exactly if the SUBACK that ends the
wait without an error carries the identifier of the SUBSCRIBE, and has a Reason Code for each
filter. So it is with `subscribe` and with the subscriber of a benchmark. -/
theorem granted_iff (filters : List String) (qos : QoS) (index : ℕ) (config : Bench.Config)
    (w : Net) :
    (GrantedIfOk (succPacketId w.store.nextPacketId) filters.length (subscribe filters qos) w ↔
      (CanWrite w → AnsweredFully PassedOver (NoneRefused filters)
        (succPacketId w.store.nextPacketId) filters.length w.inbox)) ∧
    (GrantedIfOk 1 1 (Bench.Subscriber.untilSubAck index config) w ↔
      (CanWrite w → AnsweredFully PassedOverByBench NoErrors 1 1 w.inbox)) := by
  constructor
  · have hcodes : ∀ ack, NoneRefused filters ack → ∀ i < filters.length, ∀ code,
        ack.reasonCodes[i]? = some code → code.isError = false := by
      intro ack hack i hi code hcode
      refine hack (filters[i], code) (List.mem_iff_getElem?.2 ⟨i, ?_⟩)
      rw [List.getElem?_zip_eq_some]
      exact ⟨List.getElem?_eq_getElem hi, hcode⟩
    exact grantedIfOk_iff (awaits_subscribe filters) hcodes _ () (allocated w)
  · refine grantedIfOk_iff (Bench.Subscriber.awaits_untilSubAck index) ?_ _ false w
    exact fun ack hack i _ code hcode ↦ hack code (List.mem_of_getElem? hcode)

/-- Two filters, and a SUBACK with one Reason Code: `subscribe` returns. -/
theorem not_granted_short :
    ¬∀ (filters : List String) (qos : QoS) (w : Net),
      GrantedIfOk (succPacketId w.store.nextPacketId) filters.length (subscribe filters qos) w := by
  intro h
  obtain ⟨ack, hmem, hgrants⟩ := h ["a", "b"] .atMostOnce
    (.connected 0 (fun _ ↦ none) [.packet (.suback ⟨1, [.success]⟩)]) () _ rfl
  rcases List.mem_cons.1 hmem with heq | hmem
  · cases heq
  · cases List.mem_singleton.1 hmem
    obtain ⟨code, hcode, -⟩ := hgrants.2 1 (by decide)
    cases hcode

end Subscribe

end PulsemqCli
