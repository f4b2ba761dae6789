import PulsemqCli.Cli

/-!
# TLS set-up

`build_config` makes the configuration of a TLS connection: whom the client believes, and what it
shows for itself. The certificates are parsed and checked by other crates, whose functions are
parameters here.

`Asked` says what a configuration should be, read off the flags. The broker is verified unless
`--insecure` says not to, and then against at least one certificate, each of which the store takes;
the client shows a certificate exactly if it was given one. `asked_of_buildConfig` is in one
direction only: a configuration that is asked for may fail to be made, as the files and the crates
see fit, but none is made that was not asked for.

No promise is asked of the crates. Whatever they return for a file, the same was shown to
`build_config`, and the statement is about what it does with it.
-/

namespace PulsemqCli

namespace Transport

namespace Tls

open Cli

/-- A certificate or a key, in its DER encoding. -/
abbrev Der := List UInt8

/-- What other crates do. -/
structure Libraries where
  /-- A string as `{:?}` writes it. -/
  debug : String → String
  /-- `rustls_pemfile::certs`. -/
  certs : List UInt8 → Except String (List Der)
  /-- `rustls_pemfile::private_key`. -/
  privateKey : List UInt8 → Except String (Option Der)
  /-- `load_native_certs`: the certificates and the errors. -/
  nativeCerts : List Der × List String
  /-- `RootCertStore::add`. -/
  addRoot : Der → Except String Unit
  /-- `with_client_auth_cert`. -/
  clientAuth : List Der → Der → Except String Unit
  /-- `ServerName::try_from`. -/
  serverName : String → Except String Unit
  /-- `Uri::from_str`. -/
  uri : String → Except String Unit
  /-- `into_client_request`, of a request that offers a subprotocol. -/
  upgradeRequest : (uri subprotocol : String) → Except String Unit

/-- The configuration of a TLS connection. -/
structure ClientConfig where
  /-- The certificates that the broker's is verified against; `none` with
  `NoServerVerification`. -/
  roots : Option (List Der)
  /-- The client's certificates and key. -/
  clientAuth : Option (List Der × Der)
  deriving DecidableEq, Repr

variable (lib : Libraries) (env : Environment)

def loadCerts (path : Path) : Except Error (List Der) :=
  match env.read path with
  | .error e => .error (.usage (path ++ ": " ++ e))
  | .ok bytes =>
    match lib.certs bytes with
    | .error e => .error (.usage (path ++ ": " ++ e))
    | .ok [] => .error (.usage (path ++ ": no PEM certificates found"))
    | .ok certs => .ok certs

def loadKey (path : Path) : Except Error Der :=
  match env.read path with
  | .error e => .error (.usage (path ++ ": " ++ e))
  | .ok bytes =>
    match lib.privateKey bytes with
    | .error e => .error (.usage (path ++ ": " ++ e))
    | .ok none => .error (.usage (path ++ ": no private key found"))
    | .ok (some key) => .ok key

/-- Put the certificates of `--cafile` into the store, ending at the first it does not take. -/
def addRoots (path : Path) : List Der → Except Error (List Der)
  | [] => .ok []
  | cert :: certs =>
    match lib.addRoot cert with
    | .error e => .error (.usage ("--cafile " ++ path ++ ": " ++ e))
    | .ok () => (cert :: ·) <$> addRoots path certs

/-- `add_parsable_certificates`: those that the store takes. -/
def parsable (certs : List Der) : List Der :=
  certs.filter fun cert ↦ (lib.addRoot cert).isOk

def loadRootStore : Option Path → List Warning × Except Error (List Der)
  | some path => ([], loadCerts lib env path >>= addRoots lib path)
  | none =>
    (lib.nativeCerts.2.map .nativeCertificate,
      match parsable lib lib.nativeCerts.1 with
      | [] => .error (.usage
        "no usable certificates found in the OS trust store; pass --cafile")
      | certs => .ok certs)

/-- The client's certificate and key, where both are given. -/
def loadClientAuth (args : ConnectionArgs) : Except Error (Option (List Der × Der)) :=
  match args.cert, args.key with
  | some cert, some key => do
    let certs ← loadCerts lib env cert
    let key ← loadKey lib env key
    match lib.clientAuth certs key with
    | .error e => .error (.usage ("--cert/--key: " ++ e))
    | .ok () => .ok (some (certs, key))
  | _, _ => .ok none

/-- `build_config`, with what it warns of. -/
def buildConfig (args : ConnectionArgs) : List Warning × Except Error ClientConfig :=
  let (warnings, roots) :=
    if args.insecure then ([.insecure], .ok none)
    else
      let (warnings, roots) := loadRootStore lib env args.cafile
      (warnings, some <$> roots)
  (warnings, do
    let roots ← roots
    let clientAuth ← loadClientAuth lib env args
    return { roots, clientAuth })

/-- A configuration as the arguments ask for it. -/
structure Asked (args : ConnectionArgs) (config : ClientConfig) : Prop where
  /-- The broker is verified, unless `--insecure` says not to. -/
  unverified_iff : config.roots = none ↔ args.insecure = true
  /-- What it is verified against is something, and the store takes it. -/
  roots : ∀ roots, config.roots = some roots →
    roots ≠ [] ∧ ∀ cert ∈ roots, lib.addRoot cert = .ok ()
  /-- The client shows a certificate if it was given one. -/
  clientAuth_iff : config.clientAuth.isSome = true ↔ args.cert.isSome = true

variable {lib env}

theorem exists_of_bind {ε α β : Type} {x : Except ε α} {f : α → Except ε β} {b : β}
    (h : x >>= f = .ok b) : ∃ a, x = .ok a ∧ f a = .ok b := by
  cases x with
  | error e => cases h
  | ok a => exact ⟨a, rfl, h⟩

theorem loadCerts_ne_nil {path : Path} {certs : List Der} (h : loadCerts lib env path = .ok certs) :
    certs ≠ [] := by
  unfold loadCerts at h
  split at h
  next => cases h
  next =>
    split at h
    next => cases h
    next => cases h
    next hne _ =>
      cases h
      exact hne

/-- The store has the certificates of the file, each of them accepted. -/
theorem addRoots_eq_ok {path : Path} {certs roots : List Der}
    (h : addRoots lib path certs = .ok roots) :
    roots = certs ∧ ∀ cert ∈ certs, lib.addRoot cert = .ok () := by
  induction certs generalizing roots with
  | nil =>
    cases h
    exact ⟨rfl, fun _ hcert ↦ absurd hcert List.not_mem_nil⟩
  | cons cert certs ih =>
    rw [addRoots] at h
    split at h
    next => cases h
    next hcert =>
      obtain ⟨rest, hrest, hroots⟩ := exists_of_bind h
      obtain ⟨rfl, hcerts⟩ := ih hrest
      cases hroots
      exact ⟨rfl, List.forall_mem_cons.2 ⟨hcert, hcerts⟩⟩

/-- The platform's certificates are used as far as they are accepted. -/
theorem mem_parsable {certs : List Der} {cert : Der} (h : cert ∈ parsable lib certs) :
    lib.addRoot cert = .ok () := by
  have hok := (List.mem_filter.1 h).2
  cases hadd : lib.addRoot cert with
  | error e =>
    rw [hadd] at hok
    cases hok
  | ok u => rfl

/-- **The store is never empty.** -/
theorem loadRootStore_eq_ok {cafile : Option Path} {roots : List Der}
    (h : (loadRootStore lib env cafile).2 = .ok roots) :
    roots ≠ [] ∧ ∀ cert ∈ roots, lib.addRoot cert = .ok () := by
  cases cafile with
  | some path =>
    obtain ⟨certs, hcerts, hroots⟩ := exists_of_bind h
    obtain ⟨rfl, hadd⟩ := addRoots_eq_ok hroots
    exact ⟨loadCerts_ne_nil hcerts, hadd⟩
  | none =>
    simp only [loadRootStore] at h
    split at h
    next => cases h
    next hne =>
      cases h
      exact ⟨hne, fun _ ↦ mem_parsable⟩

/-- Client authentication is given exactly if there is a certificate: the parser lets neither the
certificate nor the key stand alone. -/
theorem loadClientAuth_eq_ok {args : ConnectionArgs} {auth : Option (List Der × Der)}
    (h : loadClientAuth lib env args = .ok auth) :
    auth.isSome = true ↔ args.cert.isSome = true := by
  unfold loadClientAuth at h
  split at h
  next cert key hcert hkey =>
    obtain ⟨certs, -, h⟩ := exists_of_bind h
    obtain ⟨key, -, h⟩ := exists_of_bind h
    split at h
    next => cases h
    next =>
      cases h
      rw [hcert]
      exact iff_of_true rfl rfl
  next hnone =>
    cases h
    refine iff_of_false Bool.false_ne_true fun hcert ↦ ?_
    obtain ⟨cert, hcert'⟩ := Option.isSome_iff_exists.1 hcert
    obtain ⟨key, hkey⟩ := Option.isSome_iff_exists.1 (args.cert_requires hcert).2
    exact hnone cert key hcert' hkey

/-- **A configuration that is made is the one that was asked for.** -/
theorem asked_of_buildConfig {args : ConnectionArgs} {config : ClientConfig}
    (h : (buildConfig lib env args).2 = .ok config) : Asked lib args config := by
  unfold buildConfig at h
  cases hinsecure : args.insecure with
  | true =>
    rw [hinsecure] at h
    obtain ⟨roots, hroots, h⟩ := exists_of_bind h
    cases hroots
    obtain ⟨auth, hauth, h⟩ := exists_of_bind h
    cases h
    exact ⟨iff_of_true rfl hinsecure, fun _ hroots ↦ (by cases hroots),
      loadClientAuth_eq_ok hauth⟩
  | false =>
    rw [hinsecure] at h
    obtain ⟨roots, hroots, h⟩ := exists_of_bind h
    obtain ⟨auth, hauth, h⟩ := exists_of_bind h
    cases h
    obtain ⟨store, hstore, hsome⟩ := exists_of_bind hroots
    cases hsome
    refine ⟨iff_of_false (by simp) (by simp [hinsecure]), fun roots hroots ↦ ?_,
      loadClientAuth_eq_ok hauth⟩
    obtain rfl := Option.some.inj hroots
    exact loadRootStore_eq_ok hstore

end Tls

end Transport

end PulsemqCli
