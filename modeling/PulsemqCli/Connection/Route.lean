import PulsemqCli.Connection

/-!
# What a connection does before its CONNECT

A CONNECT goes out on a stream that was dialled where the arguments say, secured as they ask for
and upgraded if they ask for it, in this order; and it says what they say. A command dials only if
its arguments are valid, and then it can.

The stages of a connection are what it does to the network: it dials, secures the stream, upgrades
it, and sends its CONNECT. `stages` is the list the arguments ask for, and `Reached` says how far
along it a connection is, phase by phase. A step either does nothing to the network, or takes the
next item off the list; there is one specification for each function of the source, and
`Reached.step` puts them together.

Under what conditions a connection gets through is a question of possible runs, since the network
may refuse at any point. `GetsThrough` has what the arguments and the environment decide: the
password and the packet size can be read, TLS can be set up if it is asked for, the Upgrade request
can be made. `Can` says that some run gets there, and `can_connect` builds it, stage by stage.

Validation is done by the commands alone. So for a connection of a benchmark nothing but the
greeting is checked, and what the commands find before they dial is found there only after the
stream is made. A password file that others can read is warned of wherever it is looked at. With
arguments that are not valid, this warning is all that a command has to say besides its error.
-/

namespace PulsemqCli

namespace Connection

open Protocol Cli Transport.Tls Transition

/-- What is done of a connection. -/
inductive Stage where
  | dial
  | secure
  | upgrade
  | connect
  deriving DecidableEq, Repr

def Effect.stage : Effect → Option Stage
  | .warn _ => none
  | .dial _ _ => some .dial
  | .secure _ _ => some .secure
  | .upgrade _ => some .upgrade
  | .connect _ => some .connect

/-- The stages of a stream. -/
def streamStages (args : ConnectionArgs) : List Stage :=
  .dial :: (if args.tls then [.secure] else []) ++ if args.websocket then [.upgrade] else []

/-- The stages of a connection. -/
def stages (args : ConnectionArgs) : List Stage :=
  streamStages args ++ [.connect]

/-- The effect is as the arguments ask for it. -/
def Effect.Asked (c : Setting) : Effect → Prop
  | .warn _ => True
  | .dial host port => host = c.args.broker ∧ port = c.args.port
  | .secure name config => name = c.args.broker ∧ c.lib.serverName name = .ok () ∧
      (buildConfig c.lib c.env c.args).2 = .ok config ∧ Transport.Tls.Asked c.lib c.args config
  | .upgrade uri => uri = c.uri ∧ c.lib.uri uri = .ok () ∧ c.lib.upgradeRequest uri "mqtt" = .ok ()
  | .connect p => ∃ n password, n = c.args.maxPacketSize ∧ n ≠ 0 ∧ n ≤ protocolMaxPacketSize ∧
      c.args.readPassword c.env = .ok password ∧ p = c.connect n password

variable {c : Setting} {w w' : Warned} {effects : List Effect} {phase phase' : Phase} {a : Act}

/-! ### The steps that do something

One specification for each of the five functions that a step can be. Each says what the step does to
the network, where it leaves the connection, and what it has found out about the arguments by
getting there. -/

/-- What is said once is the warning that is called for. -/
theorem mem_callOnce {called : Bool} {warning : Option Warning} {e : Effect}
    (h : e ∈ (callOnce called warning).2) : ∃ v, warning = some v ∧ e = .warn v := by
  cases warning with
  | none => cases h
  | some v =>
    cases called with
    | true => cases h
    | false => exact ⟨v, rfl, List.mem_singleton.1 h⟩

/-- What is said once is a warning. -/
theorem callOnce_quiet {called : Bool} {warning : Option Warning} {e : Effect}
    (h : e ∈ (callOnce called warning).2) : ∃ v, e = .warn v := by
  obtain ⟨v, -, he⟩ := mem_callOnce h
  exact ⟨v, he⟩

/-- Only warnings. -/
def Quiet (effects : List Effect) : Prop :=
  ∀ e ∈ effects, ∃ v, e = .warn v

/-- A warning does nothing to the network. -/
theorem Quiet.stages (h : Quiet effects) : effects.filterMap Effect.stage = [] := by
  refine List.filterMap_eq_nil_iff.2 fun e he ↦ ?_
  obtain ⟨v, rfl⟩ := h e he
  rfl

theorem Quiet.asked (h : Quiet effects) : ∀ e ∈ effects, e.Asked c := by
  intro e he
  obtain ⟨v, rfl⟩ := h e he
  trivial

theorem quiet_nil : Quiet [] :=
  fun _ he ↦ absurd he List.not_mem_nil

/-- Only the warning of a password file that others can read. -/
def OnlyFileWarned (c : Setting) (effects : List Effect) : Prop :=
  ∀ e ∈ effects, ∃ v, c.args.warnIfReadableByOthers c.env = some v ∧ e = .warn v

/-- The warning of a password file is a warning. -/
theorem OnlyFileWarned.quiet (h : OnlyFileWarned c effects) : Quiet effects := by
  intro e he
  obtain ⟨v, -, rfl⟩ := h e he
  exact ⟨v, rfl⟩

theorem onlyFileWarned_nil : OnlyFileWarned c [] :=
  fun _ he ↦ absurd he List.not_mem_nil

/-- Two steps that warn of the file alone. -/
theorem OnlyFileWarned.append {effects' : List Effect} (h : OnlyFileWarned c effects)
    (h' : OnlyFileWarned c effects') : OnlyFileWarned c (effects ++ effects') :=
  fun e he ↦ (List.mem_append.1 he).elim (h e) (h' e)

theorem quiet_map (warnings : List Warning) : Quiet (warnings.map .warn) := by
  intro e he
  obtain ⟨v, -, rfl⟩ := List.mem_map.1 he
  exact ⟨v, rfl⟩

/-- What the CONNECT says can be read off the arguments. -/
structure Greets (c : Setting) : Prop where
  maxPacketSize : ∃ n, c.args.checkedMaxPacketSize = .ok n
  password : ∃ password, c.args.readPassword c.env = .ok password

/-- The arguments of a connection are valid. -/
structure Valid (c : Setting) : Prop extends Greets c where
  clientId : c.args.cleanStart = true ∨ c.clientId ≠ ""

/-- TLS can be set up. -/
structure Secures (c : Setting) : Prop where
  config : ∃ config, (buildConfig c.lib c.env c.args).2 = .ok config
  serverName : c.lib.serverName c.args.broker = .ok ()

/-- The Upgrade request can be made. -/
structure Upgrades (c : Setting) : Prop where
  uri : c.lib.uri c.uri = .ok ()
  request : c.lib.upgradeRequest c.uri "mqtt" = .ok ()

/-- **Specification of `validate`.** -/
theorem validate_spec (h : validate c w = (w', effects, phase)) : OnlyFileWarned c effects ∧
    ((Valid c ∧ phase = .starting) ∨ (¬Valid c ∧ ∃ m, phase = .failed (.usage m))) := by
  unfold validate at h
  split at h
  next hid =>
    cases h
    refine ⟨onlyFileWarned_nil, .inr ⟨fun hvalid ↦ ?_, _, rfl⟩⟩
    rw [Bool.and_eq_true, Bool.not_eq_true', String.isEmpty_iff] at hid
    rcases hvalid.clientId with hclean | hne
    · exact Bool.noConfusion (hclean.symm.trans hid.1)
    · exact hne hid.2
  next hid =>
    split at h
    next e he =>
      cases h
      refine ⟨onlyFileWarned_nil, .inr ⟨fun hvalid ↦ ?_, _, rfl⟩⟩
      obtain ⟨n, hn⟩ := hvalid.maxPacketSize
      cases he.symm.trans hn
    next n hn =>
      simp only [Setting.password] at h
      split at h
      next e he =>
        cases h
        refine ⟨fun _ ↦ mem_callOnce, .inr ⟨fun hvalid ↦ ?_, _, rfl⟩⟩
        obtain ⟨password, hpassword⟩ := hvalid.password
        cases he.symm.trans hpassword
      next password hpassword =>
        cases h
        refine ⟨fun _ ↦ mem_callOnce, .inl ⟨⟨⟨⟨n, hn⟩, password, hpassword⟩, ?_⟩, rfl⟩⟩
        rw [Bool.and_eq_true, Bool.not_eq_true', String.isEmpty_iff, not_and] at hid
        exact or_iff_not_imp_left.2 fun hclean ↦ hid (Bool.eq_false_iff.2 hclean)

/-- **Specification of `start`.** -/
theorem start_spec (h : start c w = (w', effects, phase)) :
    phase = .dialling ∧ effects.filterMap Effect.stage = [.dial] ∧ ∀ e ∈ effects, e.Asked c := by
  have hquiet : Quiet (callOnce w.plaintextPassword (c.args.warnIfPlaintextPassword c.env)).2 :=
    fun _ ↦ callOnce_quiet
  have heffects : (callOnce w.plaintextPassword (c.args.warnIfPlaintextPassword c.env)).2 ++
      [.dial c.args.broker c.args.port] = effects := congrArg (·.2.1) h
  rw [← heffects]
  refine ⟨(congrArg (·.2.2) h).symm, ?_, fun e he ↦ ?_⟩
  · rw [List.filterMap_append, hquiet.stages]
    rfl
  · rcases List.mem_append.1 he with he | he
    · exact hquiet.asked e he
    · rw [List.mem_singleton.1 he]
      exact ⟨rfl, rfl⟩

/-- **Specification of `greet`.** -/
theorem greet_spec (h : greet c w = (w', effects, phase)) : Quiet effects ∧
    ((∃ p, phase = .sending p ∧ (Effect.connect p).Asked c) ∨
      (¬Greets c ∧ ∃ m, phase = .failed (.usage m))) := by
  unfold greet at h
  split at h
  next e he =>
    cases h
    refine ⟨quiet_nil, .inr ⟨fun hgreets ↦ ?_, _, rfl⟩⟩
    obtain ⟨n, hn⟩ := hgreets.maxPacketSize
    cases he.symm.trans hn
  next n hn =>
    obtain ⟨hargs, hpos, hle⟩ := c.args.checkedMaxPacketSize_eq_ok hn
    simp only [Setting.password] at h
    split at h
    next e he =>
      cases h
      refine ⟨fun _ ↦ callOnce_quiet, .inr ⟨fun hgreets ↦ ?_, _, rfl⟩⟩
      obtain ⟨password, hpassword⟩ := hgreets.password
      cases he.symm.trans hpassword
    next password hpassword =>
      cases h
      exact ⟨fun _ ↦ callOnce_quiet,
        .inl ⟨_, rfl, n, password, hargs, hpos, hle, hpassword, rfl⟩⟩

/-- **Specification of `secure`.** -/
theorem secure_spec (h : secure c = (effects, phase)) :
    (phase = .shakingHands ∧ effects.filterMap Effect.stage = [.secure] ∧
      ∀ e ∈ effects, e.Asked c) ∨ (¬Secures c ∧ Quiet effects ∧ ∃ m, phase = .failed m) := by
  unfold secure at h
  rcases hconfig : buildConfig c.lib c.env c.args with ⟨warnings, config⟩
  have hmade := congrArg Prod.snd hconfig
  simp only [hconfig] at h
  split at h
  next e =>
    cases h
    refine .inr ⟨fun hsecures ↦ ?_, quiet_map _, _, rfl⟩
    obtain ⟨config, hok⟩ := hsecures.config
    cases hmade.symm.trans hok
  next config =>
    split at h
    next e he =>
      cases h
      exact .inr ⟨fun hsecures ↦ (by cases he.symm.trans hsecures.serverName), quiet_map _, _, rfl⟩
    next hname =>
      cases h
      refine .inl ⟨rfl, ?_, fun e he ↦ ?_⟩
      · rw [List.filterMap_append, (quiet_map warnings).stages]
        rfl
      · rcases List.mem_append.1 he with he | he
        · exact (quiet_map warnings).asked e he
        · rw [List.mem_singleton.1 he]
          exact ⟨rfl, hname, hmade, asked_of_buildConfig hmade⟩

/-- **Specification of `upgrade`.** -/
theorem upgrade_spec (h : upgrade c = (effects, phase)) :
    (phase = .awaitingUpgrade ∧ effects = [.upgrade c.uri] ∧ (Effect.upgrade c.uri).Asked c) ∨
      (¬Upgrades c ∧ effects = [] ∧ ∃ m, phase = .failed m) := by
  unfold upgrade at h
  split at h
  next e he =>
    cases h
    exact .inr ⟨fun hupgrades ↦ (by cases he.symm.trans hupgrades.uri), rfl, _, rfl⟩
  next huri =>
    split at h
    next e he =>
      cases h
      exact .inr ⟨fun hupgrades ↦ (by cases he.symm.trans hupgrades.request), rfl, _, rfl⟩
    next hrequest =>
      cases h
      exact .inl ⟨rfl, rfl, rfl, huri, hrequest⟩

/-! ### The way to the CONNECT -/

/-- The stages of a stream up to its TLS. -/
def securedStages (args : ConnectionArgs) : List Stage :=
  .dial :: if args.tls then [.secure] else []

/-- What a connection at a phase has done. -/
def Reached (c : Setting) : Phase → List Stage → Prop
  | .validating, l | .starting, l => l = []
  | .dialling, l => l = [.dial]
  | .securing, l => c.args.tls = true ∧ l = [.dial]
  | .shakingHands, l => l = securedStages c.args
  | .upgrading, l => c.args.websocket = true ∧ l = securedStages c.args
  | .awaitingUpgrade, l | .greeting, l => l = streamStages c.args
  | .sending p, l => (Effect.connect p).Asked c ∧ l = streamStages c.args
  | .awaiting, l => l = stages c.args
  | .connected n, l => n.version = c.args.protocol ∧ l = stages c.args
  | .failed _, l => l <+: stages c.args

/-- However far a connection is, it did the stages in order. -/
theorem reached_isPrefix {l : List Stage} (h : Reached c phase l) : l <+: stages c.args := by
  have hdial : [.dial] <+: stages c.args := by
    rw [stages, streamStages, List.cons_append, List.cons_append]
    exact (List.prefix_cons_inj _).2 List.nil_prefix
  have hsecured : securedStages c.args <+: stages c.args := by
    rw [stages, streamStages, List.append_assoc]
    exact List.prefix_append _ _
  have hstream : streamStages c.args <+: stages c.args := List.prefix_append _ _
  cases phase with
  | validating | starting => exact h ▸ List.nil_prefix
  | dialling => exact h ▸ hdial
  | securing => exact h.2 ▸ hdial
  | shakingHands => exact h ▸ hsecured
  | upgrading => exact h.2 ▸ hsecured
  | awaitingUpgrade | greeting => exact h ▸ hstream
  | sending p => exact h.2 ▸ hstream
  | awaiting => exact h ▸ List.prefix_refl _
  | connected n => exact h.2 ▸ List.prefix_refl _
  | failed e => exact h

/-- A stream that is secured is upgraded next, or ready. -/
theorem reached_afterTls : Reached c (afterTls c.args) (securedStages c.args) := by
  unfold afterTls
  split
  next hws => exact ⟨hws, rfl⟩
  next hws =>
    show _ = streamStages c.args
    rw [streamStages, if_neg hws, List.append_nil]
    rfl

/-- A stream that is dialled is secured next, upgraded, or ready. -/
theorem reached_afterDial : Reached c (afterDial c.args) [.dial] := by
  unfold afterDial
  split
  next htls => exact ⟨htls, rfl⟩
  next htls =>
    have hsecured : securedStages c.args = [.dial] := by rw [securedStages, if_neg htls]
    rw [← hsecured]
    exact reached_afterTls

/-- **One step on the way.** -/
theorem Reached.step {l : List Stage} (h : Reached c phase l)
    (hstep : step c w phase a = some (w', effects, phase')) :
    Reached c phase' (l ++ effects.filterMap Effect.stage) ∧ ∀ e ∈ effects, e.Asked c := by
  have hfailed : ∀ e, phase' = .failed e → effects.filterMap Effect.stage = [] →
      Reached c phase' (l ++ effects.filterMap Effect.stage) := by
    rintro e rfl hnil
    rw [hnil, List.append_nil]
    exact reached_isPrefix h
  unfold Connection.step at hstep
  split at hstep
  · -- Validation.
    obtain ⟨hwarned, ⟨-, rfl⟩ | ⟨-, m, hm⟩⟩ := validate_spec (Option.some.inj hstep)
    all_goals have hquiet := hwarned.quiet
    · rw [hquiet.stages, List.append_nil]
      exact ⟨h, hquiet.asked⟩
    · exact ⟨hfailed _ hm hquiet.stages, hquiet.asked⟩
  · obtain ⟨rfl, hstage, hasked⟩ := start_spec (Option.some.inj hstep)
    rw [show l = [] from h, hstage]
    exact ⟨rfl, hasked⟩
  · cases hstep
    rw [show l = [.dial] from h]
    exact ⟨reached_afterDial, quiet_nil.asked⟩
  · cases hstep
    exact ⟨hfailed _ rfl rfl, quiet_nil.asked⟩
  · -- The set-up of TLS.
    obtain ⟨htls, rfl⟩ := h
    obtain ⟨rfl, hstage, hasked⟩ | ⟨-, hquiet, m, hm⟩ := secure_spec (Prod.mk.inj
      (Option.some.inj hstep)).2
    · refine ⟨?_, hasked⟩
      rw [hstage]
      show _ = securedStages c.args
      rw [securedStages, if_pos htls]
      rfl
    · exact ⟨hfailed _ hm hquiet.stages, hquiet.asked⟩
  · cases hstep
    rw [show l = securedStages c.args from h]
    exact ⟨by rw [List.filterMap_nil, List.append_nil]; exact reached_afterTls, quiet_nil.asked⟩
  · cases hstep
    exact ⟨hfailed _ rfl rfl, quiet_nil.asked⟩
  · -- The Upgrade request.
    obtain ⟨hws, rfl⟩ := h
    have hupgrade := (Prod.mk.inj (Option.some.inj hstep)).2
    obtain ⟨rfl, rfl, hasked⟩ | ⟨-, rfl, m, hm⟩ := upgrade_spec hupgrade
    · refine ⟨?_, fun e he ↦ ?_⟩
      · show _ = streamStages c.args
        rw [streamStages, if_pos hws]
        rfl
      · rw [List.mem_singleton.1 he]
        exact hasked
    · exact ⟨hfailed _ hm rfl, quiet_nil.asked⟩
  · cases hstep
    exact ⟨by rw [List.filterMap_nil, List.append_nil]; exact h, quiet_nil.asked⟩
  · cases hstep
    exact ⟨hfailed _ rfl rfl, quiet_nil.asked⟩
  · -- The CONNECT is made.
    obtain ⟨hquiet, ⟨p, rfl, hp⟩ | ⟨-, m, hm⟩⟩ := greet_spec (Option.some.inj hstep)
    · refine ⟨⟨hp, ?_⟩, hquiet.asked⟩
      rw [hquiet.stages, List.append_nil]
      exact h
    · exact ⟨hfailed _ hm hquiet.stages, hquiet.asked⟩
  · cases hstep
    obtain ⟨hp, rfl⟩ := h
    refine ⟨rfl, fun e he ↦ ?_⟩
    rw [List.mem_singleton.1 he]
    exact hp
  · cases hstep
    exact ⟨hfailed _ rfl rfl, quiet_nil.asked⟩
  · -- The answer.
    cases hstep
    refine ⟨?_, quiet_nil.asked⟩
    rw [List.filterMap_nil, List.append_nil, show l = stages c.args from h]
    unfold answered
    split
    · exact List.prefix_refl _
    · split
      · exact ⟨rfl, rfl⟩
      · exact List.prefix_refl _
    · exact List.prefix_refl _
    · exact List.prefix_refl _
  · cases hstep

/-- A connection on its way. -/
def OnRoute (c : Setting) (phase : Phase) (t : List Effect) : Prop :=
  Reached c phase (t.filterMap Effect.stage) ∧ ∀ e ∈ t, e.Asked c

/-- Every connection of a process, at every moment. -/
theorem always_onRoute {ι : Type} [DecidableEq ι] (r : Process ι) (bench : Bool) :
    Always (Step r) (initial bench) fun s ↦ ∀ i,
      OnRoute (r.setting i) (s.phase i) (trace s.log i) := by
  refine always_each (I := OnRoute) r (fun c ↦ ⟨?_, quiet_nil.asked⟩) ?_
  · cases bench <;> rfl
  · rintro c w phase a w' effects phase' t hstep ⟨hreached, hasked⟩
    obtain ⟨hreached', hasked'⟩ := hreached.step hstep
    rw [OnRoute, List.filterMap_append]
    refine ⟨hreached', fun e he ↦ ?_⟩
    exact (List.mem_append.1 he).elim (hasked e) (hasked' e)

/-- **Every CONNECT is on a stream as the arguments ask for, and says what they say.** Of any number
of connections, in any interleaving: what each has done is the beginning of dialling, securing the
stream if `--tls` says so, upgrading it if `--websocket` does, and writing the CONNECT, each as it
is asked for. A connection that is up has done it all. -/
theorem routed {ι : Type} [DecidableEq ι] (r : Process ι) (bench : Bool) :
    Always (Step r) (initial bench) fun s ↦ ∀ i,
      (trace s.log i).filterMap Effect.stage <+: stages r.args ∧
      (∀ e ∈ trace s.log i, e.Asked (r.setting i)) ∧
      ∀ n, s.phase i = .connected n →
        (trace s.log i).filterMap Effect.stage = stages r.args ∧ n.version = r.args.protocol := by
  refine (always_onRoute r bench).mono fun s h i ↦ ?_
  obtain ⟨hstage, hasked⟩ := h i
  refine ⟨reached_isPrefix hstage, hasked, fun n hn ↦ ?_⟩
  rw [hn] at hstage
  exact ⟨hstage.2, hstage.1⟩

/-! ### Arguments that get through

Possible runs are built forwards: a connection that has got so far can take the next stage. That
nothing else can get there is the invariant from the section before, read backwards from a CONNECT.
-/

/-- Nothing that the program looks at keeps it from writing its CONNECT. -/
structure GetsThrough (c : Setting) (bench : Bool) : Prop extends Greets c where
  clientId : bench = false → c.args.cleanStart = true ∨ c.clientId ≠ ""
  secures : c.args.tls = true → Secures c
  upgrades : c.args.websocket = true → Upgrades c

/-- A command's connection that has done more than to warn of its password file is valid. -/
def Validated (c : Setting) (phase : Phase) (t : List Effect) : Prop :=
  Valid c ∨ (OnlyFileWarned c t ∧
    (phase = .validating ∨ ∃ m, phase = .failed (.usage m)))

section Runs

variable {ι : Type} [DecidableEq ι] {r : Process ι} {bench : Bool} {i : ι}

/-- No command has dialled with arguments that are not valid. -/
theorem always_validated (r : Process ι) : Always (Step r) (initial false) fun s ↦ ∀ i,
    Validated (r.setting i) (s.phase i) (trace s.log i) := by
  refine always_each (I := Validated) r (fun c ↦ .inr ⟨onlyFileWarned_nil, .inl rfl⟩) ?_
  rintro c w phase a w' effects phase' t hstep (hvalid | ⟨hwarned, rfl | ⟨m, rfl⟩⟩)
  · exact .inl hvalid
  · cases a with
    | proceed =>
      obtain ⟨hwarns, ⟨hvalid, -⟩ | ⟨-, hfailed⟩⟩ := validate_spec (Option.some.inj hstep)
      · exact .inl hvalid
      · exact .inr ⟨hwarned.append hwarns, .inr hfailed⟩
    | _ => cases hstep
  · cases a <;> cases hstep

/-- A connection takes a step of its own. -/
theorem can_proceed {phase phase' : Phase}
    (h : Can (Step r) (initial bench) fun s ↦ s.phase i = phase)
    (hstep : ∀ w, ∃ w' effects, step (r.setting i) w phase .proceed =
      some (w', effects, phase')) :
    Can (Step r) (initial bench) fun s ↦ s.phase i = phase' := by
  obtain ⟨s, hs, hphase⟩ := h
  obtain ⟨w', effects, hmade⟩ := hstep s.warned
  have hrun : run r s i .proceed =
      some ⟨w', Function.update s.phase i phase', s.log ++ effects.map (i, ·)⟩ := by
    rw [run, hphase, hmade]
    rfl
  exact ⟨_, hs.tail ⟨i, .proceed, hrun⟩, Function.update_self ..⟩

/-- What a connection does in a step of its own, it has done then. -/
theorem can_do {phase : Phase} {e : Effect}
    (h : Can (Step r) (initial bench) fun s ↦ s.phase i = phase)
    (hstep : ∀ w, ∃ w' effects phase', step (r.setting i) w phase .proceed =
      some (w', effects, phase') ∧ e ∈ effects) :
    Can (Step r) (initial bench) fun s ↦ e ∈ trace s.log i := by
  obtain ⟨s, hs, hphase⟩ := h
  obtain ⟨w', effects, phase', hmade, he⟩ := hstep s.warned
  have hrun : run r s i .proceed =
      some ⟨w', Function.update s.phase i phase', s.log ++ effects.map (i, ·)⟩ := by
    rw [run, hphase, hmade]
    rfl
  refine ⟨_, hs.tail ⟨i, .proceed, hrun⟩, ?_⟩
  show e ∈ trace (s.log ++ effects.map (i, ·)) i
  rw [trace_append, trace_map_self]
  exact List.mem_append_right _ he

/-- A connection with valid arguments can be started; one of a benchmark is started with any. -/
theorem can_start (h : bench = false → Valid (r.setting i)) :
    Can (Step r) (initial bench) fun s ↦ s.phase i = .starting := by
  cases bench with
  | true => exact Can.here rfl
  | false =>
    have hbegin : Can (Step r) (initial false) fun s ↦ s.phase i = .validating := Can.here rfl
    refine can_proceed hbegin fun w ↦ ?_
    rcases hvalidate : validate (r.setting i) w with ⟨w', effects, phase⟩
    obtain ⟨-, ⟨-, rfl⟩ | ⟨hnot, -⟩⟩ := validate_spec hvalidate
    · exact ⟨w', effects, congrArg some hvalidate⟩
    · exact absurd (h rfl) hnot

/-- From its dialling on, a connection whose stream can be made gets to the handshake. -/
theorem can_greet (h : Can (Step r) (initial bench) fun s ↦ s.phase i = .starting)
    (hsecures : (r.setting i).args.tls = true → Secures (r.setting i))
    (hupgrades : (r.setting i).args.websocket = true → Upgrades (r.setting i)) :
    Can (Step r) (initial bench) fun s ↦ s.phase i = .greeting := by
  have hdialled := can_proceed h fun w ↦ ⟨_, _, rfl⟩
  have hdone := can_proceed hdialled fun w ↦ ⟨_, _, rfl⟩
  have hsecured : Can (Step r) (initial bench) fun s ↦ s.phase i = afterTls (r.setting i).args := by
    by_cases htls : (r.setting i).args.tls = true
    · rw [afterDial, if_pos htls] at hdone
      have hshaking : Can (Step r) (initial bench) fun s ↦ s.phase i = .shakingHands := by
        refine can_proceed hdone fun w ↦ ?_
        rcases hsecure : secure (r.setting i) with ⟨effects, phase⟩
        obtain ⟨rfl, -⟩ | ⟨hnot, -⟩ := secure_spec hsecure
        · exact ⟨w, effects, congrArg (fun x ↦ some (w, x)) hsecure⟩
        · exact absurd (hsecures htls) hnot
      exact can_proceed hshaking fun w ↦ ⟨_, _, rfl⟩
    · rwa [afterDial, if_neg htls] at hdone
  by_cases hws : (r.setting i).args.websocket = true
  · rw [afterTls, if_pos hws] at hsecured
    have hawaiting : Can (Step r) (initial bench) fun s ↦ s.phase i = .awaitingUpgrade := by
      refine can_proceed hsecured fun w ↦ ?_
      rcases hupgrade : upgrade (r.setting i) with ⟨effects, phase⟩
      obtain ⟨rfl, -⟩ | ⟨hnot, -⟩ := upgrade_spec hupgrade
      · exact ⟨w, effects, congrArg (fun x ↦ some (w, x)) hupgrade⟩
      · exact absurd (hupgrades hws) hnot
    exact can_proceed hawaiting fun w ↦ ⟨_, _, rfl⟩
  · rwa [afterTls, if_neg hws] at hsecured

/-- Once the CONNECT is written, everything before it is done. -/
theorem stages_of_connect {c : Setting} {t : List Effect} {p : Connect}
    (h : t.filterMap Effect.stage <+: stages c.args) (hp : .connect p ∈ t) :
    t.filterMap Effect.stage = stages c.args := by
  refine (List.prefix_concat_iff.1 h).resolve_right fun hstream ↦ ?_
  have hconnect : Stage.connect ∈ streamStages c.args :=
    hstream.subset (List.mem_filterMap.2 ⟨_, hp, rfl⟩)
  simp [streamStages] at hconnect

/-- A CONNECT was sent only if the arguments let it through. -/
theorem getsThrough_of_connect {s : State ι} (hs : Reaches (Step r) (initial bench) s)
    {p : Connect} (hp : .connect p ∈ trace s.log i) : GetsThrough (r.setting i) bench := by
  obtain ⟨hstages, hasked, -⟩ := routed r bench s hs i
  have hall := stages_of_connect (c := r.setting i) hstages hp
  have hstage {x : Stage} (hx : x ∈ stages (r.setting i).args) :
      ∃ e ∈ trace s.log i, e.stage = some x :=
    List.mem_filterMap.1 (hall ▸ hx)
  obtain ⟨n, password, rfl, hpos, hle, hpassword, -⟩ := hasked _ hp
  have hmax : (r.setting i).args.checkedMaxPacketSize = .ok (r.setting i).args.maxPacketSize := by
    rw [ConnectionArgs.checkedMaxPacketSize, if_neg hpos, if_neg (UInt32.not_lt.2 hle)]
  refine ⟨⟨⟨_, hmax⟩, password, hpassword⟩, ?_, fun htls ↦ ?_, fun hws ↦ ?_⟩
  · rintro rfl
    rcases always_validated r s hs i with hvalid | ⟨hwarned, -⟩
    · exact hvalid.clientId
    · have hnone := hwarned.quiet.stages
      rw [hall] at hnone
      cases hnone
  · obtain ⟨e, he, hsecure⟩ := hstage (x := .secure) (by simp [stages, streamStages, htls])
    cases e with
    | secure name config =>
      obtain ⟨rfl, hname, hconfig, -⟩ := hasked _ he
      exact ⟨⟨config, hconfig⟩, hname⟩
    | _ => cases hsecure
  · obtain ⟨e, he, hupgrade⟩ := hstage (x := .upgrade) (by simp [stages, streamStages, hws])
    cases e with
    | upgrade uri =>
      obtain ⟨rfl, huri, hrequest⟩ := hasked _ he
      exact ⟨huri, hrequest⟩
    | _ => cases hupgrade

/-- And if they do, it can be sent. -/
theorem can_connect (h : GetsThrough (r.setting i) bench) :
    Can (Step r) (initial bench) fun s ↦ ∃ p, .connect p ∈ trace s.log i := by
  have hstart := can_start fun hbench ↦ (⟨h.toGreets, h.clientId hbench⟩ : Valid (r.setting i))
  have hgreeting := can_greet hstart h.secures h.upgrades
  obtain ⟨password, hpassword⟩ := h.password
  have hsending : Can (Step r) (initial bench) fun s ↦ s.phase i =
      .sending ((r.setting i).connect (r.setting i).args.maxPacketSize password) := by
    refine can_proceed hgreeting fun w ↦ ?_
    rcases hgreet : greet (r.setting i) w with ⟨w', effects, phase⟩
    obtain ⟨-, ⟨p, rfl, n, password', rfl, -, -, hread, rfl⟩ | ⟨hnot, -⟩⟩ := greet_spec hgreet
    · rw [hpassword] at hread
      cases hread
      exact ⟨w', effects, congrArg some hgreet⟩
    · exact absurd h.toGreets hnot
  obtain ⟨s, hs, hmem⟩ := can_do hsending fun w ↦ ⟨_, _, _, rfl, List.mem_singleton_self _⟩
  exact ⟨s, hs, _, hmem⟩

/-- **What the arguments let through.** A command can dial exactly if its arguments are valid, and a
benchmark's connection always; and either can write its CONNECT exactly if nothing that the program
looks at is in the way. Without valid arguments a command's connection fails with a usage error,
and has done nothing but to warn of a password file that others can read, if that is what it is
given. -/
theorem dials_and_connects_iff (r : Process ι) (bench : Bool) (i : ι) :
    ((Can (Step r) (initial bench) fun s ↦ ∃ host port, .dial host port ∈ trace s.log i) ↔
      (bench = false → Valid (r.setting i))) ∧
    ((Can (Step r) (initial bench) fun s ↦ ∃ p, .connect p ∈ trace s.log i) ↔
      GetsThrough (r.setting i) bench) ∧
    (¬Valid (r.setting i) → Always (Step r) (initial false) fun s ↦
      (∀ e ∈ trace s.log i, ∃ v, r.args.warnIfReadableByOthers r.env = some v ∧ e = .warn v) ∧
        (s.phase i = .validating ∨ ∃ m, s.phase i = .failed (.usage m))) := by
  refine ⟨⟨?_, fun hvalid ↦ ?_⟩, ⟨?_, can_connect⟩, fun hnot ↦ ?_⟩
  · rintro ⟨s, hs, host, port, hdial⟩ rfl
    refine (always_validated r s hs i).resolve_right fun ⟨hwarned, _⟩ ↦ ?_
    obtain ⟨v, hv⟩ := hwarned.quiet _ hdial
    cases hv
  · obtain ⟨s, hs, hmem⟩ := can_do (can_start hvalid) fun w ↦
      ⟨_, _, _, rfl, List.mem_append_right _ (List.mem_singleton_self _)⟩
    exact ⟨s, hs, _, _, hmem⟩
  · rintro ⟨s, hs, p, hp⟩
    exact getsThrough_of_connect hs hp
  · exact (always_validated r).mono fun s h ↦ (h i).resolve_left hnot

end Runs

end Connection

end PulsemqCli
