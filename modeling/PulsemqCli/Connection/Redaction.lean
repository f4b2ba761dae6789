import PulsemqCli.Connection

/-!
# Where a password shows

Two processes that differ in nothing but the bytes of the password cannot be told apart before
their CONNECT, however their connections interleave and whatever the network does: what they warn
of, dial and write is the same, and so are their errors. In the CONNECT nothing but the password
differs.

`redact` takes the bytes of a password away: only whether there is one is kept. Two settings are
`Alike` if they are equal after that, and the lemmas `Alike.*` go through the functions of the
source one by one. Each of them either does not look at the password, or only at whether there is
one; `readPassword` is the only one that returns it.

The result is a property of two runs. They are taken in lockstep: the same connection makes the same
act in both, and a state of one is a state of the other up to redaction (`Alike.step`, `run_alike`).
Since an act that is possible in one is possible in the other, nothing that an observer could see of
either tells them apart, errors included. What the broker answers is among the acts: a broker that
accepts one password and refuses the other is two lists of acts, and is not compared.
-/

namespace PulsemqCli

namespace Connection

open Protocol Cli Transport.Tls Transition

/-- That there is a password, without its bytes. -/
def hidden (password : Option (List UInt8)) : Option (List UInt8) :=
  password.map fun _ ↦ []

def Connect.redact (p : Connect) : Connect :=
  { p with password := hidden p.password }

def Effect.redact : Effect → Effect
  | .connect p => .connect p.redact
  | e => e

def Phase.redact : Phase → Phase
  | .sending p => .sending p.redact
  | phase => phase

/-- What a step shows of a connection to one who does not see passwords. -/
def redactStep (x : Warned × List Effect × Phase) : Warned × List Effect × Phase :=
  (x.1, x.2.1.map Effect.redact, x.2.2.redact)

def State.redact {ι : Type} (s : State ι) : State ι where
  warned := s.warned
  phase := fun i ↦ (s.phase i).redact
  log := s.log.map fun x ↦ (x.1, x.2.redact)

def redactArgs (args : ConnectionArgs) : ConnectionArgs :=
  { args with
    password := args.password.map fun _ ↦ ""
    password_conflicts := args.password_conflicts.imp_left fun hnone ↦ by rw [hnone]; rfl }

/-- Two settings that differ in nothing but the bytes of the password, be it in the arguments, in
its file or in the environment. -/
structure Alike (c c' : Setting) : Prop where
  lib : c.lib = c'.lib
  clientId : c.clientId = c'.clientId
  args : redactArgs c.args = redactArgs c'.args
  passwordVar : hidden c.env.passwordVar = hidden c'.env.passwordVar
  mode : c.env.mode = c'.env.mode
  passwordFile : ∀ path, c.args.passwordFile = some path →
    (fun _ ↦ ()) <$> c.env.read path = (fun _ ↦ ()) <$> c'.env.read path
  certificates : ∀ path, c.args.cafile = some path ∨ c.args.cert = some path ∨
    c.args.key = some path → c.env.read path = c'.env.read path

variable {c c' : Setting} {w : Warned}

/-- What does not look at the password's bytes is the same. -/
theorem Alike.eq {α : Type} (h : Alike c c') (f : ConnectionArgs → α)
    (hf : ∀ args, f (redactArgs args) = f args) : f c.args = f c'.args :=
  (hf _).symm.trans ((congrArg f h.args).trans (hf _))

/-- Both have a `--password`, or none has. -/
theorem Alike.password_isSome (h : Alike c c') :
    c.args.password.isSome = c'.args.password.isSome := by
  have hpassword := congrArg (Option.isSome ·.password) h.args
  rwa [redactArgs, redactArgs, Option.isSome_map, Option.isSome_map] at hpassword

/-- Both have a password in the environment, or none has. -/
theorem Alike.passwordVar_isSome (h : Alike c c') :
    c.env.passwordVar.isSome = c'.env.passwordVar.isSome := by
  have hvar := congrArg Option.isSome h.passwordVar
  rwa [hidden, hidden, Option.isSome_map, Option.isSome_map] at hvar

/-- Two fallible results that agree up to a function have the same error, or have values that agree
up to it. -/
theorem cases_of_map {ε α β : Type} {f : α → β} {x y : Except ε α} (h : f <$> x = f <$> y) :
    (∃ e, x = .error e ∧ y = .error e) ∨ ∃ a b, x = .ok a ∧ y = .ok b ∧ f a = f b := by
  cases x with
  | error e =>
    cases y with
    | error e' =>
      cases h
      exact .inl ⟨e, rfl, rfl⟩
    | ok b => cases h
  | ok a =>
    cases y with
    | error e' => cases h
    | ok b => exact .inr ⟨a, b, rfl, rfl, Except.ok.inj h⟩

/-- Both read a password, or fail with the same error. -/
theorem Alike.readPassword (h : Alike c c') : hidden <$> c.args.readPassword c.env =
    hidden <$> c'.args.readPassword c'.env := by
  have hfile := h.eq (·.passwordFile) fun _ ↦ rfl
  unfold ConnectionArgs.readPassword
  rw [← hfile]
  cases hc : c.args.passwordFile with
  | some path =>
    rcases cases_of_map (h.passwordFile path hc) with ⟨e, he, he'⟩ | ⟨bytes, bytes', he, he', -⟩
    · simp only [he, he']
    · simp only [he, he']
      rfl
  | none =>
    have hsome := h.password_isSome
    cases hp : c.args.password with
    | some password =>
      rw [hp] at hsome
      obtain ⟨password', hp'⟩ := Option.isSome_iff_exists.1 hsome.symm
      rw [hp']
      rfl
    | none =>
      rw [hp] at hsome
      rw [Option.isSome_eq_false_iff.1 hsome.symm |> Option.isNone_iff_eq_none.1]
      exact congrArg Except.ok h.passwordVar

/-- Both have a password from somewhere, or none has. -/
theorem Alike.hasPasswordSource (h : Alike c c') :
    c.args.hasPasswordSource c.env = c'.args.hasPasswordSource c'.env := by
  have hfile := h.eq (·.passwordFile) fun _ ↦ rfl
  rw [ConnectionArgs.hasPasswordSource, ConnectionArgs.hasPasswordSource, hfile,
    h.password_isSome, h.passwordVar_isSome]

/-- Both are warned of a password in the clear, or none is. -/
theorem Alike.warnIfPlaintextPassword (h : Alike c c') :
    c.args.warnIfPlaintextPassword c.env = c'.args.warnIfPlaintextPassword c'.env := by
  have hfeatures := h.eq (·.features) fun _ ↦ rfl
  have htls := h.eq (·.tls) fun _ ↦ rfl
  rw [ConnectionArgs.warnIfPlaintextPassword, ConnectionArgs.warnIfPlaintextPassword,
    h.hasPasswordSource, hfeatures, htls]

/-- Both are warned of the same file, or none is. -/
theorem Alike.warnIfReadableByOthers (h : Alike c c') :
    c.args.warnIfReadableByOthers c.env = c'.args.warnIfReadableByOthers c'.env := by
  have hfile := h.eq (·.passwordFile) fun _ ↦ rfl
  rw [ConnectionArgs.warnIfReadableByOthers, ConnectionArgs.warnIfReadableByOthers, hfile, h.mode]

/-- TLS is set up from the files that it names. -/
theorem buildConfig_congr {lib : Libraries} {env env' : Environment} {args : ConnectionArgs}
    (h : ∀ path, args.cafile = some path ∨ args.cert = some path ∨ args.key = some path →
      env.read path = env'.read path) : buildConfig lib env args = buildConfig lib env' args := by
  have hcerts {path : Path} (hpath : env.read path = env'.read path) :
      loadCerts lib env path = loadCerts lib env' path := by
    rw [loadCerts, loadCerts, hpath]
  have hkey {path : Path} (hpath : env.read path = env'.read path) :
      loadKey lib env path = loadKey lib env' path := by
    rw [loadKey, loadKey, hpath]
  have hroots : loadRootStore lib env args.cafile = loadRootStore lib env' args.cafile := by
    cases hcafile : args.cafile with
    | none => rfl
    | some path => rw [loadRootStore, loadRootStore, hcerts (h path (.inl hcafile))]
  have hauth : loadClientAuth lib env args = loadClientAuth lib env' args := by
    unfold loadClientAuth
    cases hcert : args.cert with
    | none => rfl
    | some cert =>
      cases hk : args.key with
      | none => rfl
      | some key =>
        simp only [hcerts (h cert (.inr (.inl hcert))), hkey (h key (.inr (.inr hk)))]
  rw [buildConfig, buildConfig, hroots, hauth]

/-- TLS is set up alike. -/
theorem Alike.buildConfig (h : Alike c c') :
    buildConfig c.lib c.env c.args = buildConfig c'.lib c'.env c'.args := by
  rw [buildConfig_congr h.certificates, h.lib]
  exact h.eq (Transport.Tls.buildConfig c'.lib c'.env) fun _ ↦ rfl

/-- What a connection reads of its password, and says. -/
theorem Alike.password (h : Alike c c') (w : Warned) :
    (c.password w).1 = (c'.password w).1 ∧ (c.password w).2.1 = (c'.password w).2.1 ∧
      hidden <$> (c.password w).2.2 = hidden <$> (c'.password w).2.2 := by
  rw [Setting.password, Setting.password, h.warnIfReadableByOthers]
  exact ⟨rfl, rfl, h.readPassword⟩

/-- Validation looks at the password only for whether it can be read. -/
theorem Alike.validate (h : Alike c c') (w : Warned) : validate c w = validate c' w := by
  have hclean := h.eq (·.cleanStart) fun _ ↦ rfl
  have hmax := h.eq (·.checkedMaxPacketSize) fun _ ↦ rfl
  have hsame := h.password w
  rcases hc : c.password w with ⟨w₁, effects, password⟩
  rcases hc' : c'.password w with ⟨w₁', effects', password'⟩
  rw [hc, hc'] at hsame
  obtain ⟨rfl, rfl, hread⟩ := hsame
  rw [Connection.validate, Connection.validate, hclean, h.clientId, hmax, hc, hc']
  rcases cases_of_map hread with ⟨e, rfl, rfl⟩ | ⟨password, password', rfl, rfl, -⟩
  · rfl
  · rfl

theorem Alike.start (h : Alike c c') (w : Warned) : start c w = start c' w := by
  have hbroker := h.eq (·.broker) fun _ ↦ rfl
  have hport := h.eq (·.port) fun _ ↦ rfl
  rw [Connection.start, Connection.start, h.warnIfPlaintextPassword, hbroker, hport]

theorem Alike.secure (h : Alike c c') : secure c = secure c' := by
  have hbroker := h.eq (·.broker) fun _ ↦ rfl
  rw [Connection.secure, Connection.secure, h.buildConfig, h.lib, hbroker]

theorem Alike.upgrade (h : Alike c c') : upgrade c = upgrade c' := by
  have hbroker := h.eq (·.broker) fun _ ↦ rfl
  have hport := h.eq (·.port) fun _ ↦ rfl
  have huri : c.uri = c'.uri := by rw [Setting.uri, Setting.uri, hbroker, hport]
  rw [Connection.upgrade, Connection.upgrade, huri, h.lib, hbroker]

/-- The two CONNECTs differ in the password at most. -/
theorem Alike.connect (h : Alike c c') (n : UInt32) {password password' : Option (List UInt8)}
    (hpassword : hidden password = hidden password') :
    (c.connect n password).redact = (c'.connect n password').redact := by
  have hversion := h.eq (·.protocol) fun _ ↦ rfl
  have hclean := h.eq (·.cleanStart) fun _ ↦ rfl
  have hkeepalive := h.eq (·.keepalive) fun _ ↦ rfl
  have hwill := h.eq (·.will) fun _ ↦ rfl
  have huser := h.eq (·.user) fun _ ↦ rfl
  simp only [Connect.redact, Setting.connect, hversion, hclean, hkeepalive, h.clientId, hwill,
    huser, hpassword]

/-- Up to the password, both connections send the same CONNECT or fail alike. -/
theorem Alike.greet (h : Alike c c') (w : Warned) :
    redactStep (greet c w) = redactStep (greet c' w) := by
  have hmax := h.eq (·.checkedMaxPacketSize) fun _ ↦ rfl
  have hsame := h.password w
  rcases hc : c.password w with ⟨w₁, effects, password⟩
  rcases hc' : c'.password w with ⟨w₁', effects', password'⟩
  rw [hc, hc'] at hsame
  obtain ⟨rfl, rfl, hread⟩ := hsame
  rw [Connection.greet, Connection.greet, hmax, hc, hc']
  cases c'.args.checkedMaxPacketSize with
  | error e => rfl
  | ok n =>
    rcases cases_of_map hread with ⟨e, rfl, rfl⟩ | ⟨password, password', rfl, rfl, hpassword⟩
    · rfl
    · exact congrArg (fun p ↦ (w₁, effects.map Effect.redact, Phase.sending p))
        (h.connect n hpassword)

/-- Two phases that are the same up to redaction are the same, unless a CONNECT is about to be sent.
-/
theorem redact_cases {phase phase' : Phase} (h : phase.redact = phase'.redact) :
    phase = phase' ∨
      ∃ p p', phase = .sending p ∧ phase' = .sending p' ∧ p.redact = p'.redact := by
  cases phase with
  | sending p =>
    cases phase' with
    | sending p' => exact .inr ⟨p, p', rfl, rfl, Phase.sending.inj h⟩
    | _ => cases h
  | _ =>
    cases phase' with
    | sending p' => cases h
    | _ => exact .inl h

/-- **No step tells two passwords apart.** -/
theorem Alike.step (h : Alike c c') (w : Warned) {phase phase' : Phase}
    (hphase : phase.redact = phase'.redact) (a : Act) :
    (step c w phase a).map redactStep = (step c' w phase' a).map redactStep := by
  rcases redact_cases hphase with rfl | ⟨p, p', rfl, rfl, hp⟩
  · cases a with
    | proceed =>
      cases phase with
      | validating => exact congrArg (some ∘ redactStep) (h.validate w)
      | starting => exact congrArg (some ∘ redactStep) (h.start w)
      | dialling =>
        exact congrArg (fun x ↦ some (redactStep (w, [], x))) (h.eq afterDial fun _ ↦ rfl)
      | securing => exact congrArg (fun x ↦ some (redactStep (w, x))) h.secure
      | shakingHands =>
        exact congrArg (fun x ↦ some (redactStep (w, [], x))) (h.eq afterTls fun _ ↦ rfl)
      | upgrading => exact congrArg (fun x ↦ some (redactStep (w, x))) h.upgrade
      | greeting => exact congrArg some (h.greet w)
      | _ => rfl
    | fail e text =>
      cases phase <;> rfl
    | answer r =>
      cases phase with
      | awaiting =>
        exact congrArg (fun v ↦ some (redactStep (w, [], answered v r)))
          (h.eq (·.protocol) fun _ ↦ rfl)
      | _ => rfl
  · cases a with
    | proceed => exact congrArg (fun p ↦ some (w, [Effect.connect p], Phase.awaiting)) hp
    | fail e text => rfl
    | answer r => rfl

/-! ### Whole runs -/

section Runs

variable {ι : Type} [DecidableEq ι]

/-- A run of a process, by the steps its connections take. -/
def runAll (r : Process ι) (s : State ι) (schedule : List (ι × Act)) : Option (State ι) :=
  schedule.foldlM (fun s x ↦ run r s x.1 x.2) s

/-- What a step comes to for a process. -/
theorem run_redact (r : Process ι) (s : State ι) (i : ι) (a : Act) :
    (run r s i a).map State.redact =
      ((step (r.setting i) s.warned (s.phase i) a).map redactStep).map fun x ↦
        ⟨x.1, Function.update s.redact.phase i x.2.2, s.redact.log ++ x.2.1.map (i, ·)⟩ := by
  cases hstep : step (r.setting i) s.warned (s.phase i) a with
  | none =>
    rw [run, hstep]
    rfl
  | some x =>
    obtain ⟨w, effects, phase⟩ := x
    have hphase : (fun j ↦ (Function.update s.phase i phase j).redact) =
        Function.update s.redact.phase i phase.redact := by
      funext j
      by_cases hij : j = i
      · subst hij
        rw [Function.update_self, Function.update_self]
      · rw [Function.update_of_ne hij, Function.update_of_ne hij]
        rfl
    rw [run, hstep]
    simp only [Option.map_some, redactStep, ← hphase, List.map_map]
    refine congrArg some (congrArg (State.mk _ _) ?_)
    rw [List.map_append, List.map_map]
    rfl

/-- **The runs stay in step.** An act leads to states that are the same up to redaction, or is
possible in neither. -/
theorem run_alike {r r' : Process ι} (h : ∀ i, Alike (r.setting i) (r'.setting i))
    {s s' : State ι} (hs : s.redact = s'.redact) (i : ι) (a : Act) :
    (run r s i a).map State.redact = (run r' s' i a).map State.redact := by
  obtain ⟨hwarned, hphase, -⟩ := State.mk.inj hs
  rw [run_redact, run_redact, (h i).step s.warned (congrFun hphase i) a, hwarned, hs]

/-- **Nothing shows of a password but in the CONNECT.** Of two processes that differ in nothing but
the bytes of the password, a schedule of steps is a run of both or of neither, and then each
connection has come to the same phase, and all have warned of, dialled and written the same, but
for the password in a CONNECT. -/
theorem noninterference {r r' : Process ι} (h : ∀ i, Alike (r.setting i) (r'.setting i))
    (bench : Bool) (schedule : List (ι × Act)) :
    (runAll r (initial bench) schedule).map State.redact =
      (runAll r' (initial bench) schedule).map State.redact :=
  view_foldlM (fun _ _ x hs ↦ run_alike h hs x.1 x.2) schedule rfl

/-- A command with a password on its command line. -/
def withPassword (password : String) : Process Unit where
  lib := {
    debug := id
    certs := fun _ ↦ .ok []
    privateKey := fun _ ↦ .ok none
    nativeCerts := ([], [])
    addRoot := fun _ ↦ .ok ()
    clientAuth := fun _ _ ↦ .ok ()
    serverName := fun _ ↦ .ok ()
    uri := fun _ ↦ .ok ()
    upgradeRequest := fun _ _ ↦ .ok () }
  env := ⟨none, fun _ ↦ .error "no such file", fun _ ↦ none⟩
  args := {
    features := ⟨true, true⟩
    broker := "localhost"
    portArg := none
    clientId := none
    protocol := .v5
    user := some "user"
    password := some password
    passwordFile := none
    keepalive := 60
    maxPacketSize := 1048576
    persistentSession := false
    tls := false
    cafile := none
    cert := none
    key := none
    insecure := false
    websocket := false
    willTopic := none
    willPayload := none
    willQos := .atMostOnce
    willRetain := false
    tls_requires := fun _ ↦ rfl
    websocket_requires := fun _ ↦ rfl
    password_conflicts := .inr rfl
    persistentSession_requires := by simp
    cafile_requires := by simp
    cert_requires := by simp
    key_requires := by simp
    insecure_requires := by simp
    will_requires := fun _ ↦ ⟨rfl, rfl, rfl⟩ }
  clientId := fun _ ↦ "client"

/-- Settings that differ in `--password` alone. -/
theorem alike_withPassword (password password' : String) (i : Unit) :
    Alike ((withPassword password).setting i) ((withPassword password').setting i) :=
  ⟨rfl, rfl, rfl, rfl, rfl, fun _ _ ↦ rfl, fun _ _ ↦ rfl⟩

theorem noninterference_twoPasswords :
    (runAll (withPassword "s3cret") (initial false) (List.replicate 5 ((), .proceed))).map
        State.redact =
      (runAll (withPassword "other") (initial false) (List.replicate 5 ((), .proceed))).map
        State.redact ∧
    (runAll (withPassword "s3cret") (initial false) (List.replicate 5 ((), .proceed))).map
        State.log ≠
      (runAll (withPassword "other") (initial false) (List.replicate 5 ((), .proceed))).map
        State.log :=
  ⟨noninterference (alike_withPassword _ _) _ _, by decide +kernel⟩

end Runs

end Connection

end PulsemqCli
