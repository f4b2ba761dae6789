import PulsemqCli.Connection.Route
import PulsemqCli.Library.History

/-!
# Passwords

A password that crosses the network in the clear is warned of, by a build that could do better, and
so is one in a file that others can read, once per process and in time. In time is, for the first,
before anything is dialled. The file is looked at where the password is read: a command does that
when it validates its arguments, and again for its CONNECT; a connection of a benchmark only then.

`Accounts` is the invariant of a process: what its two `Once`s have let through so far, and that
each event was warned of by the events before it (`Forewarned`). What each step says is read off
the code once (`warned_of_step`), and a lemma for each of its cases keeps the accounts.

The two `Once`s belong to the process and not to a connection, so the accounts are of a whole
process: a warning that one connection gave is not given again by another, and is in time for that
one too, because what is in the log stays there. All connections of a process share the arguments
that the warnings depend on. That is why it does not matter which of them is the first.

Warnings about TLS come out of the same steps. They are given again by every connection that has
reason to, and are of another kind, which the accounts leave aside (`Given.append`).
-/

namespace PulsemqCli

namespace Connection

open Protocol Cli Transport.Tls Transition

variable {ι : Type}

/-! ### Warnings

The two kinds of warnings each go through a `Once` of their own. `Given` is the account of one such
kind: whether the `Once` has been called, and what was given. -/

def Effect.warning : Effect → Option Warning
  | .warn w => some w
  | _ => none

/-- The warnings of a process. -/
def warnings (log : List (ι × Effect)) : List Warning :=
  log.filterMap fun x ↦ x.2.warning

def isPlaintext : Warning → Bool
  | .plaintextPassword => true
  | _ => false

def isReadable : Warning → Bool
  | .readableByOthers _ _ => true
  | _ => false

/-- The warnings about TLS are given for every connection. -/
def isTls : Warning → Bool
  | .insecure | .nativeCertificate _ => true
  | _ => false

/-- Of the warnings of a kind that is given once, the one that is called for was given if it was
called for, and no other. -/
def Given (kind : Warning → Bool) (asked : Option Warning) (called : Bool)
    (given : List Warning) : Prop :=
  given.filter kind = (if called then asked.toList else []) ∧ (called = true → asked.isSome = true)

variable {kind : Warning → Bool} {asked : Option Warning} {called : Bool} {given ws : List Warning}

/-- Warnings of another kind change nothing. -/
theorem Given.append (h : Given kind asked called given) (hws : ∀ w ∈ ws, kind w = false) :
    Given kind asked called (given ++ ws) := by
  refine ⟨?_, h.2⟩
  have hnone : ws.filter kind = [] :=
    List.filter_eq_nil_iff.2 fun w hw ↦ Bool.eq_false_iff.1 (hws w hw)
  rw [List.filter_append, h.1, hnone, List.append_nil]

/-- What there was to say, once it may have been said, was said. -/
theorem Given.mem (h : Given kind asked true given) {w : Warning} (hw : asked = some w) :
    w ∈ given := by
  have hmem : w ∈ given.filter kind := by
    rw [h.1, hw]
    exact List.mem_singleton_self w
  exact (List.mem_filter.1 hmem).1

/-- After `call_once`, a warning has been given if it was given before or there was one to give. -/
theorem callOnce_fst (called : Bool) (asked : Option Warning) :
    (callOnce called asked).1 = (called || asked.isSome) := by
  cases asked with
  | none => exact (Bool.or_false called).symm
  | some w => exact (Bool.or_true called).symm

/-- **`Once::call_once`.** -/
theorem Given.callOnce (h : Given kind asked called given) (hkind : ∀ w, asked = some w → kind w) :
    Given kind asked (callOnce called asked).1
      (given ++ (callOnce called asked).2.filterMap Effect.warning) := by
  cases asked with
  | none =>
    show Given kind none called (given ++ [])
    rwa [List.append_nil]
  | some w =>
    refine ⟨?_, fun _ ↦ rfl⟩
    cases called with
    | true =>
      show (given ++ []).filter kind = [w]
      rw [List.append_nil]
      exact h.1
    | false =>
      show (given ++ [w]).filter kind = [w]
      rw [List.filter_append, h.1, List.filter_singleton, hkind w rfl]
      rfl

/-- Once it may have been called, it was called if there was something to say. -/
theorem Given.callOnce_fst (h : Given kind asked called given) :
    (Connection.callOnce called asked).1 = asked.isSome := by
  rw [Connection.callOnce_fst]
  cases called with
  | true => exact (h.2 rfl).symm
  | false => exact Bool.false_or _

/-- `call_once` says only what it was asked to say. -/
theorem asked_of_callOnce {v : Warning}
    (hv : v ∈ (callOnce called asked).2.filterMap Effect.warning) : asked = some v := by
  cases asked with
  | none => cases hv
  | some w =>
    cases called with
    | true => cases hv
    | false => rw [List.mem_singleton.1 hv]

variable {c : Setting} {w w' : Warned} {effects : List Effect} {phase phase' : Phase} {a : Act}

/-- Building a TLS configuration warns of nothing but TLS. -/
theorem buildConfig_warnings {lib : Libraries} {env : Environment} {args : ConnectionArgs}
    {v : Warning} (h : v ∈ (buildConfig lib env args).1) : isTls v = true := by
  unfold buildConfig at h
  cases hinsecure : args.insecure with
  | true =>
    rw [hinsecure] at h
    rw [List.mem_singleton.1 h]
    rfl
  | false =>
    rw [hinsecure] at h
    cases hcafile : args.cafile with
    | some path =>
      rw [hcafile] at h
      cases h
    | none =>
      rw [hcafile] at h
      obtain ⟨e, -, rfl⟩ := List.mem_map.1 h
      rfl

/-- Nothing that has to do with passwords. -/
def Effect.Plain (e : Effect) : Prop :=
  e.stage ≠ some .dial ∧ e.stage ≠ some .connect ∧ ∀ v, e.warning = some v → isTls v = true

def Unwarned (effects : List Effect) : Prop :=
  ∀ e ∈ effects, e.Plain

theorem unwarned_nil : Unwarned [] :=
  fun _ he ↦ absurd he List.not_mem_nil

theorem plain_secure (name : String) (config : ClientConfig) : (Effect.secure name config).Plain :=
  ⟨by simp [Effect.stage], by simp [Effect.stage], by simp [Effect.warning]⟩

theorem plain_upgrade (uri : String) : (Effect.upgrade uri).Plain :=
  ⟨by simp [Effect.stage], by simp [Effect.stage], by simp [Effect.warning]⟩

theorem unwarned_of_secure (h : secure c = (effects, phase)) : Unwarned effects := by
  have hwarn : Unwarned ((buildConfig c.lib c.env c.args).1.map .warn) := by
    intro e he
    obtain ⟨v, hv, rfl⟩ := List.mem_map.1 he
    refine ⟨by simp [Effect.stage], by simp [Effect.stage], fun u hu ↦ ?_⟩
    obtain rfl := Option.some.inj hu
    exact buildConfig_warnings hv
  unfold secure at h
  rcases hconfig : buildConfig c.lib c.env c.args with ⟨vs, config⟩
  rw [hconfig] at hwarn
  simp only [hconfig] at h
  split at h
  next =>
    cases h
    exact hwarn
  next =>
    split at h
    next =>
      cases h
      exact hwarn
    next =>
      cases h
      intro e he
      rcases List.mem_append.1 he with he | he
      · exact hwarn e he
      · rw [List.mem_singleton.1 he]
        exact plain_secure _ _

/-- **What a step says of passwords.** -/
theorem warned_of_step (h : step c w phase a = some (w', effects, phase')) :
    (w' = w ∧ Unwarned effects ∧ ∀ p, phase' ≠ .sending p) ∨
    (∃ p, phase = .sending p ∧ w' = w ∧ effects = [.connect p] ∧ phase' = .awaiting) ∨
    (w' = { w with readableByOthers :=
        (callOnce w.readableByOthers (c.args.warnIfReadableByOthers c.env)).1 } ∧
      effects = (callOnce w.readableByOthers (c.args.warnIfReadableByOthers c.env)).2) ∨
    (w' = { w with plaintextPassword :=
        (callOnce w.plaintextPassword (c.args.warnIfPlaintextPassword c.env)).1 } ∧
      effects = (callOnce w.plaintextPassword (c.args.warnIfPlaintextPassword c.env)).2 ++
        [.dial c.args.broker c.args.port] ∧ phase' = .dialling) := by
  unfold step at h
  split at h
  · -- Validation.
    have h := Option.some.inj h
    unfold validate at h
    split at h
    next =>
      cases h
      exact .inl ⟨rfl, unwarned_nil, by simp⟩
    next =>
      split at h
      next =>
        cases h
        exact .inl ⟨rfl, unwarned_nil, by simp⟩
      next =>
        simp only [Setting.password] at h
        split at h <;> cases h <;> exact .inr (.inr (.inl ⟨rfl, rfl⟩))
  · cases h
    exact .inr (.inr (.inr ⟨rfl, rfl, rfl⟩))
  · cases h
    exact .inl ⟨rfl, unwarned_nil, fun p ↦ by unfold afterDial; split_ifs <;> simp⟩
  · cases h
    exact .inl ⟨rfl, unwarned_nil, by simp⟩
  · -- The set-up of TLS.
    obtain ⟨rfl, hsecure⟩ := Prod.mk.inj (Option.some.inj h)
    refine .inl ⟨rfl, unwarned_of_secure hsecure, ?_⟩
    obtain ⟨rfl, -⟩ | ⟨-, -, m, rfl⟩ := secure_spec hsecure
    · simp
    · simp
  · cases h
    exact .inl ⟨rfl, unwarned_nil, fun p ↦ by unfold afterTls; split_ifs <;> simp⟩
  · cases h
    exact .inl ⟨rfl, unwarned_nil, by simp⟩
  · -- The Upgrade request.
    obtain ⟨rfl, hupgrade⟩ := Prod.mk.inj (Option.some.inj h)
    obtain ⟨rfl, rfl, -⟩ | ⟨-, rfl, m, rfl⟩ := upgrade_spec hupgrade
    · exact .inl ⟨rfl, List.forall_mem_singleton.2 (plain_upgrade _), by simp⟩
    · exact .inl ⟨rfl, unwarned_nil, by simp⟩
  · cases h
    exact .inl ⟨rfl, unwarned_nil, by simp⟩
  · cases h
    exact .inl ⟨rfl, unwarned_nil, by simp⟩
  · -- The CONNECT is made.
    have h := Option.some.inj h
    unfold greet at h
    split at h
    next =>
      cases h
      exact .inl ⟨rfl, unwarned_nil, by simp⟩
    next =>
      simp only [Setting.password] at h
      split at h <;> cases h <;> exact .inr (.inr (.inl ⟨rfl, rfl⟩))
  · cases h
    exact .inr (.inl ⟨_, rfl, rfl, rfl, rfl⟩)
  · cases h
    exact .inl ⟨rfl, unwarned_nil, by simp⟩
  · cases h
    refine .inl ⟨rfl, unwarned_nil, fun p ↦ ?_⟩
    unfold answered
    split
    · simp
    · split_ifs <;> simp
    · simp
    · simp
  · cases h

/-! ### What was warned of, and when

An event is `Forewarned` if the events before it have the warnings that it needs: the first for
every dial, the second for every CONNECT. The accounts of a process keep this for every event of its
log, whichever connection it is of. -/

section Runs

variable (r : Process ι)

/-- What has to be warned of before an event was. -/
structure Forewarned (before : List (ι × Effect)) (x : ι × Effect) : Prop where
  dial : x.2.stage = some .dial → ∀ v, r.args.warnIfPlaintextPassword r.env = some v →
    v ∈ warnings before
  /-- A password in the clear, where there is an alternative to it. -/
  password : r.args.features.tls = true → ∀ p password, x.2 = .connect p →
    p.password = some password → r.args.tls = false → .plaintextPassword ∈ warnings before
  /-- A password from a file that others can read. -/
  file : ∀ p, x.2 = .connect p → ∀ v, r.args.warnIfReadableByOthers r.env = some v →
    v ∈ warnings before

def dialled (log : List (ι × Effect)) : Bool :=
  log.any fun x ↦ x.2.stage = some .dial

/-- What the warnings so far have to do with the rest of a process. -/
structure Accounts (s : State ι) : Prop where
  plaintext : Given isPlaintext (r.args.warnIfPlaintextPassword r.env)
    s.warned.plaintextPassword (warnings s.log)
  readable : Given isReadable (r.args.warnIfReadableByOthers r.env)
    s.warned.readableByOthers (warnings s.log)
  dialled : s.warned.plaintextPassword =
    (Connection.dialled s.log && (r.args.warnIfPlaintextPassword r.env).isSome)
  sending : ∀ i p, s.phase i = .sending p →
    s.warned.readableByOthers = (r.args.warnIfReadableByOthers r.env).isSome
  forewarned : Throughout (Forewarned r) s.log

theorem warnings_append (log log' : List (ι × Effect)) :
    warnings (log ++ log') = warnings log ++ warnings log' :=
  List.filterMap_append

/-- The warnings of one connection's step. -/
theorem warnings_map (effects : List Effect) (i : ι) :
    warnings (effects.map (i, ·)) = effects.filterMap Effect.warning := by
  rw [warnings, List.filterMap_map]
  rfl

/-- A step dials where one of its effects does. -/
theorem dialled_append (log : List (ι × Effect)) (effects : List Effect) (i : ι) :
    dialled (log ++ effects.map (i, ·)) =
      (dialled log || effects.any fun e ↦ e.stage = some .dial) := by
  rw [dialled, dialled, List.any_append, List.any_map]
  rfl

/-- What is said of TLS dials nothing. -/
theorem Unwarned.dialled (h : Unwarned effects) :
    (effects.any fun e ↦ e.stage = some .dial) = false :=
  List.any_eq_false.2 fun e he ↦ by simpa using (h e he).1

/-- What is said of TLS is not about passwords. -/
theorem Unwarned.warnings (h : Unwarned effects) {v : Warning}
    (hv : v ∈ effects.filterMap Effect.warning) : isTls v = true := by
  obtain ⟨e, he, hev⟩ := List.mem_filterMap.1 hv
  exact (h e he).2.2 v hev

/-- A warning is no stage of a connection. -/
theorem callOnce_stage {e : Effect} {called : Bool} {asked : Option Warning}
    (he : e ∈ (callOnce called asked).2) : e.stage = none := by
  obtain ⟨v, rfl⟩ := callOnce_quiet he
  rfl

/-- `warn_if_readable_by_others` speaks of the file. -/
theorem isReadable_of_asked {v : Warning} (h : r.args.warnIfReadableByOthers r.env = some v) :
    isReadable v = true := by
  obtain ⟨path, -, h⟩ := Option.bind_eq_some_iff.1 h
  obtain ⟨mode, -, h⟩ := Option.bind_eq_some_iff.1 h
  split at h
  · rw [← Option.some.inj h]
    rfl
  · cases h

/-- `warn_if_plaintext_password` has one thing to say. -/
theorem eq_of_asked {v : Warning} (h : r.args.warnIfPlaintextPassword r.env = some v) :
    v = .plaintextPassword := by
  unfold ConnectionArgs.warnIfPlaintextPassword at h
  split at h
  · exact (Option.some.inj h).symm
  · cases h

variable {r} {before fs : List (ι × Effect)} {x : ι × Effect}

/-- Whoever was warned in time stays so. -/
theorem Forewarned.mono (h : Forewarned r before x) : Forewarned r (before ++ fs) x where
  dial := fun hx v hv ↦ by
    rw [warnings_append]
    exact List.mem_append_left _ (h.dial hx v hv)
  password := fun hfeature p password hx hp htls ↦ by
    rw [warnings_append]
    exact List.mem_append_left _ (h.password hfeature p password hx hp htls)
  file := fun p hx v hv ↦ by
    rw [warnings_append]
    exact List.mem_append_left _ (h.file p hx v hv)

/-- What neither dials nor is a CONNECT needs no warning. -/
theorem forewarned_of_stage (hdial : x.2.stage ≠ some .dial)
    (hconnect : x.2.stage ≠ some .connect) : Forewarned r before x where
  dial := fun hx ↦ absurd hx hdial
  password := fun _ p password hx ↦ absurd (by rw [hx]; rfl) hconnect
  file := fun p hx ↦ absurd (by rw [hx]; rfl) hconnect

variable [DecidableEq ι] {s s' : State ι}

/-- A connection that is about to send its CONNECT has its password from somewhere, and has
dialled. -/
theorem forewarned_connect {i : ι} {p : Connect} (h : Accounts r s)
    (hroute : OnRoute (r.setting i) (.sending p) (trace s.log i))
    (hphase : s.phase i = .sending p) : Forewarned r s.log (i, .connect p) := by
  obtain ⟨⟨hasked, hstages⟩, -⟩ := hroute
  have hdial : Connection.dialled s.log = true := by
    have hmem : Stage.dial ∈ (trace s.log i).filterMap Effect.stage := by
      rw [hstages]
      exact List.mem_cons_self
    obtain ⟨e, he, hstage⟩ := List.mem_filterMap.1 hmem
    obtain ⟨x, hx, hxe⟩ := List.mem_filterMap.1 he
    refine List.any_eq_true.2 ⟨x, hx, decide_eq_true ?_⟩
    split at hxe
    · rw [Option.some.inj hxe, hstage]
    · cases hxe
  refine ⟨fun hx ↦ by simp [Effect.stage] at hx, fun hfeature p' password hx hpassword htls ↦ ?_,
    fun p' hx v hv ↦ ?_⟩
  · cases hx
    obtain ⟨n, password', -, -, -, hread, rfl⟩ := hasked
    obtain rfl : password' = some password := hpassword
    have hclear : r.args.warnIfPlaintextPassword r.env = some .plaintextPassword := by
      have hsource : r.args.hasPasswordSource r.env = true :=
        ConnectionArgs.hasPasswordSource_of_readPassword _ hread
      rw [ConnectionArgs.warnIfPlaintextPassword, hfeature, hsource, htls]
      rfl
    have hgiven := h.plaintext
    rw [h.dialled, hdial, hclear] at hgiven
    exact hgiven.mem rfl
  · have hgiven := h.readable
    rw [h.sending i p hphase, hv] at hgiven
    exact hgiven.mem rfl

/-- A step of one connection leaves the others where they are. -/
theorem sending_update {P : Prop} {i : ι} (hphase : ∀ p, phase = .sending p → P)
    (h : ∀ j p, s.phase j = .sending p → P) (j : ι) (p : Connect)
    (hj : Function.update s.phase i phase j = .sending p) : P := by
  by_cases hij : j = i
  · subst hij
    rw [Function.update_self] at hj
    exact hphase p hj
  · rw [Function.update_of_ne hij] at hj
    exact h j p hj

/-- A step that says nothing of passwords and reads none. -/
theorem Accounts.plain (h : Accounts r s) (hquiet : Unwarned effects)
    (hphase : ∀ p, phase ≠ .sending p) (i : ι) :
    Accounts r ⟨s.warned, Function.update s.phase i phase, s.log ++ effects.map (i, ·)⟩ where
  plaintext := by
    rw [warnings_append, warnings_map]
    refine h.plaintext.append fun v hv ↦ ?_
    have htls := hquiet.warnings hv
    cases v <;> first | rfl | cases htls
  readable := by
    rw [warnings_append, warnings_map]
    refine h.readable.append fun v hv ↦ ?_
    have htls := hquiet.warnings hv
    cases v <;> first | rfl | cases htls
  dialled := by
    rw [dialled_append, hquiet.dialled, Bool.or_false]
    exact h.dialled
  sending := sending_update (fun p hp ↦ absurd hp (hphase p)) h.sending
  forewarned := by
    refine h.forewarned.append (fun _ _ _ ↦ Forewarned.mono) fun x hx ↦ ?_
    obtain ⟨e, he, rfl⟩ := List.mem_map.1 hx
    exact forewarned_of_stage (hquiet e he).1 (hquiet e he).2.1

/-- The CONNECT is sent. -/
theorem Accounts.connect {i : ι} {p : Connect} (h : Accounts r s) (hphase : s.phase i = .sending p)
    (hroute : OnRoute (r.setting i) (.sending p) (trace s.log i)) :
    Accounts r ⟨s.warned, Function.update s.phase i .awaiting, s.log ++ [(i, .connect p)]⟩ where
  plaintext := by
    rw [warnings_append]
    exact h.plaintext.append fun v hv ↦ absurd hv List.not_mem_nil
  readable := by
    rw [warnings_append]
    exact h.readable.append fun v hv ↦ absurd hv List.not_mem_nil
  dialled := by
    refine h.dialled.trans ?_
    rw [Connection.dialled, Connection.dialled, List.any_append]
    simp [Effect.stage]
  sending := sending_update (fun p hp ↦ (by cases hp)) h.sending
  forewarned := throughout_snoc.2 ⟨h.forewarned, forewarned_connect h hroute hphase⟩

/-- The password is read. -/
theorem Accounts.password (h : Accounts r s) (i : ι) (phase : Phase) :
    Accounts r ⟨{ s.warned with readableByOthers :=
        (callOnce s.warned.readableByOthers (r.args.warnIfReadableByOthers r.env)).1 },
      Function.update s.phase i phase, s.log ++ (callOnce s.warned.readableByOthers
        (r.args.warnIfReadableByOthers r.env)).2.map (i, ·)⟩ where
  plaintext := by
    rw [warnings_append, warnings_map]
    refine h.plaintext.append fun v hv ↦ ?_
    have hkind := isReadable_of_asked r (asked_of_callOnce hv)
    cases v <;> first | rfl | cases hkind
  readable := by
    rw [warnings_append, warnings_map]
    exact h.readable.callOnce fun v hv ↦ isReadable_of_asked r hv
  dialled := by
    refine h.dialled.trans ?_
    rw [dialled_append, List.any_eq_false.2 fun e he ↦ by simp [callOnce_stage he],
      Bool.or_false]
  sending := fun _ _ _ ↦ h.readable.callOnce_fst
  forewarned := by
    refine h.forewarned.append (fun _ _ _ ↦ Forewarned.mono) fun x hx ↦ ?_
    obtain ⟨e, he, rfl⟩ := List.mem_map.1 hx
    exact forewarned_of_stage (by simp [callOnce_stage he]) (by simp [callOnce_stage he])

/-- The connection is dialled. -/
theorem Accounts.dial (h : Accounts r s) (i : ι) (host : String) (port : UInt16) :
    Accounts r ⟨{ s.warned with plaintextPassword :=
        (callOnce s.warned.plaintextPassword (r.args.warnIfPlaintextPassword r.env)).1 },
      Function.update s.phase i .dialling, s.log ++ ((callOnce s.warned.plaintextPassword
        (r.args.warnIfPlaintextPassword r.env)).2 ++ [Effect.dial host port]).map (i, ·)⟩ := by
  have hplaintext := h.plaintext.callOnce fun v hv ↦ by rw [eq_of_asked r hv]; rfl
  rw [← warnings_map _ i, ← warnings_append] at hplaintext
  have hcalled := h.plaintext.callOnce_fst
  rw [List.map_append, ← List.append_assoc]
  have hlast (log : List (ι × Effect)) :
      warnings (log ++ [(i, Effect.dial host port)]) = warnings log := by
    rw [warnings_append]
    exact List.append_nil _
  refine ⟨?_, ?_, ?_, sending_update (fun p hp ↦ (by cases hp)) h.sending, ?_⟩
  · exact (hlast _).symm ▸ hplaintext
  · refine (hlast _).symm ▸ ?_
    rw [warnings_append, warnings_map]
    refine h.readable.append fun v hv ↦ ?_
    rw [eq_of_asked r (asked_of_callOnce hv)]
    rfl
  · refine hcalled.trans ?_
    have hdialled (log : List (ι × Effect)) :
        Connection.dialled (log ++ [(i, Effect.dial host port)]) = true :=
      List.any_eq_true.2 ⟨_, List.mem_append_right _ (List.mem_singleton_self _), rfl⟩
    exact (congrArg (· && _) (hdialled _)).symm
  · refine throughout_snoc.2 ⟨?_, ?_⟩
    · refine h.forewarned.append (fun _ _ _ ↦ Forewarned.mono) fun x hx ↦ ?_
      obtain ⟨e, he, rfl⟩ := List.mem_map.1 hx
      exact forewarned_of_stage (by simp [callOnce_stage he]) (by simp [callOnce_stage he])
    · refine ⟨fun _ v hv ↦ ?_, fun _ _ _ hx ↦ (by cases hx), fun _ hx ↦ (by cases hx)⟩
      rw [hcalled.trans (congrArg Option.isSome hv)] at hplaintext
      exact hplaintext.mem hv

/-- **One step of the accounts.** -/
theorem Accounts.step (h : Accounts r s)
    (hroute : ∀ i, OnRoute (r.setting i) (s.phase i) (trace s.log i)) (hs : Step r s s') :
    Accounts r s' := by
  obtain ⟨i, a, w, effects, phase, hstep, rfl⟩ := exists_of_step r hs
  obtain ⟨rfl, hquiet, hphase⟩ | ⟨p, hsending, rfl, rfl, rfl⟩ | ⟨rfl, rfl⟩ | ⟨rfl, rfl, rfl⟩ :=
    warned_of_step hstep
  · exact h.plain hquiet hphase i
  · have hconnect := hroute i
    rw [hsending] at hconnect
    exact h.connect hsending hconnect
  · exact h.password i phase
  · exact h.dial i _ _

/-- The accounts of a process are right at every moment. -/
theorem always_accounts (r : Process ι) (bench : Bool) :
    Always (Step r) (initial bench) (Accounts r) := by
  have hroute := always_onRoute r bench
  intro s hs
  induction hs with
  | refl =>
    refine ⟨⟨rfl, fun h ↦ (by cases h)⟩, ⟨rfl, fun h ↦ (by cases h)⟩, rfl, fun i p hp ↦ ?_,
      throughout_nil⟩
    cases bench <;> cases hp
  | tail hs hstep ih => exact ih.step (hroute _ hs) hstep

/-- **A password is warned of once, and in time.** Of any number of connections, in any
interleaving: if a password would cross the network in the clear, in a build that has TLS, that is
said when the first of them dials and never again; otherwise it is never said. That a password file
can be read by others is said at most once. The first has been said before anything is dialled, and
so before a password is sent in the clear; the second before any CONNECT is written, which for a
benchmark, that reads its password only then, can be after it has dialled. -/
theorem warned (r : Process ι) (bench : Bool) : Always (Step r) (initial bench) fun s ↦
    (warnings s.log).filter isPlaintext = (if dialled s.log then
      (r.args.warnIfPlaintextPassword r.env).toList else []) ∧
    (warnings s.log).filter isReadable <+: (r.args.warnIfReadableByOthers r.env).toList ∧
    Throughout (Forewarned r) s.log := by
  refine (always_accounts r bench).mono fun s h ↦ ⟨?_, ?_, h.forewarned⟩
  · rw [h.plaintext.1, h.dialled]
    cases r.args.warnIfPlaintextPassword r.env <;> simp
  · rw [h.readable.1]
    split
    · exact List.prefix_refl _
    · exact List.nil_prefix

end Runs

end Connection

end PulsemqCli
