import PulsemqCli.Bench.Publisher.Window
import PulsemqCli.Library.History
import Mathlib.Data.List.Iterate

/-!
# The identifiers in the order of their allocation

`Client::next_packet_id` and the copy of it in the benchmark's publisher count up from 1 and skip
0 where they wrap, so that the identifiers come back after 65535 allocations. The client's callers
may do anything else with it between two allocations; the publisher allocates in its send loop.

The closed form is proved once, for the function; what the two uses need is that nothing else
touches the counter. For the client this is a triple over any sequence of calls, with the
identifiers read off in between. For the publisher it is a history over its steps, and the
identifiers are those of the messages as they are assigned.
-/

namespace PulsemqCli

open Reactive Protocol Client

/-! ### The closed form -/

/-- The identifiers go round `1..=65535`, each in the place its position gives it. -/
structure RoundRobin (ids : List PacketId) : Prop where
  nth : ∀ n id, 1 ≤ n → ids[n - 1]? = some id → id.toNat = (n - 1) % 65535 + 1
  zero : 0 ∉ ids
  /-- Two positions share an identifier exactly if they are whole rounds apart. -/
  shared : ∀ (i j : ℕ) (id id' : PacketId), ids[i]? = some id → ids[j]? = some id' →
    (id = id' ↔ (65535 : ℤ) ∣ (i : ℤ) - j)

/-- Counting up from 1 goes round. -/
theorem roundRobin_iterate (n : ℕ) : RoundRobin (List.iterate succPacketId 1 n) := by
  have hnat : ∀ i id, (List.iterate succPacketId 1 n)[i]? = some id →
      id.toNat = i % 65535 + 1 := by
    intro i id h
    obtain ⟨hi, rfl⟩ := List.getElem?_eq_some_iff.1 h
    rw [List.getElem_iterate]
    have hone : (1 : PacketId) ≠ 0 := by decide
    refine (toNat_iterate_succPacketId hone i).trans ?_
    rw [show (1 : PacketId).toNat - 1 + i = i by simp]
  refine ⟨fun i id _ h ↦ hnat _ id h, fun h ↦ ?_, fun i j id id' h h' ↦ ?_⟩
  · obtain ⟨i, hi⟩ := List.getElem?_of_mem h
    exact absurd (hnat i 0 hi) (by simp)
  · rw [← UInt16.toNat_inj, hnat i id h, hnat j id' h']
    omega

/-! ### The client -/

/-- What a command can call its client for. -/
inductive Call where
  | nextPacketId
  | send (p : Packet)
  | recv
  | recvKeepalive

/-- One call, with the identifier it returns if it allocates one. -/
def Call.perform : Call → Command (Option PacketId)
  | .nextPacketId => some <$> Client.nextPacketId
  | .send p => do
    Client.send p
    return none
  | .recv => react (fun s ↦ Client.recv (fun _ ↦ return .inr none) s) ()
  | .recvKeepalive => react (fun s ↦ Client.recvKeepalive (fun _ ↦ return .inr none) s) ()

/-- Calls one after the other, with the identifiers they allocate. -/
def performAll : List Call → Command (List PacketId)
  | [] => return []
  | call :: calls => do
    let id ← call.perform
    let ids ← performAll calls
    return id.toList ++ ids

/-- What a call makes of the counter: it allocates the identifier after the last one, or leaves
the last one alone. -/
def Counts (w : Net) (id : Option PacketId) (w' : Net) : Prop :=
  id = none ∧ w'.store.nextPacketId = w.store.nextPacketId ∨
    id = some (succPacketId w.store.nextPacketId) ∧
      w'.store.nextPacketId = succPacketId w.store.nextPacketId

/-- Reading allocates nothing. -/
theorem wp_read {body : Unit → Stimulus → Command (Unit ⊕ Option PacketId)} (w : Net)
    (hbody : ∀ x v, v.store.nextPacketId = w.store.nextPacketId →
      wp (body () x)
        (fun r v' ↦ v'.store.nextPacketId = w.store.nextPacketId ∧ ∀ id, r = .inr id → id = none)
        (fun _ _ ↦ True) v) :
    wp (react body ()) (Counts w) (fun _ _ ↦ True) w := by
  refine wp_react (fun _ _ v ↦ v.store.nextPacketId = w.store.nextPacketId)
    (fun _ _ _ ↦ trivial) (fun x rest _ v hv ↦ ?_) rfl
  refine (hbody x { v with inbox := rest } hv).mono ?_ fun _ _ _ ↦ trivial
  rintro (s | id) v' ⟨hv', hid⟩
  · exact hv'
  · exact Or.inl ⟨hid id rfl, hv'⟩

theorem wp_perform (call : Call) (w : Net) :
    wp call.perform (Counts w) (fun _ _ ↦ True) w := by
  rcases call with - | p | - | -
  · simp only [Call.perform, wp_map, wp_nextPacketId]
    exact Or.inr ⟨rfl, rfl⟩
  · simp only [Call.perform, wp_bind]
    exact wp_send p (Or.inl ⟨rfl, rfl⟩) fun _ _ ↦ trivial
  · refine wp_read w fun x v hv ↦ ?_
    rcases x with p | - | e | - | -
    · rw [wp_recv_packet]
      exact ⟨hv, fun _ h ↦ (Sum.inr.inj h).symm⟩
    · trivial
    · trivial
    · exact ⟨hv, nofun⟩
    · exact ⟨hv, nofun⟩
  · refine wp_read w fun x v hv ↦ ?_
    rcases x with p | - | e | - | -
    · exact ⟨hv, fun _ h ↦ (Sum.inr.inj h).symm⟩
    · trivial
    · trivial
    · simp only [Client.recvKeepalive, wp_bind, wp_load]
      split
      · rw [wp_bind]
        exact wp_send _ ⟨hv, nofun⟩ fun _ _ ↦ trivial
      · exact ⟨hv, nofun⟩
    · exact ⟨hv, nofun⟩

/-- **The identifiers of a client's run** count up from the counter. -/
theorem wp_performAll (calls : List Call) (w : Net) :
    wp (performAll calls)
      (fun ids _ ↦ ids =
        List.iterate succPacketId (succPacketId w.store.nextPacketId) ids.length)
      (fun _ _ ↦ True) w := by
  induction calls generalizing w with
  | nil => exact rfl
  | cons call calls ih =>
    simp only [performAll, wp_bind]
    refine (wp_perform call w).mono (fun id v hid ↦ ?_) fun _ _ _ ↦ trivial
    refine (ih v).mono (fun ids _ hids ↦ ?_) fun _ _ _ ↦ trivial
    rcases hid with ⟨rfl, hv⟩ | ⟨rfl, hv⟩
    · rw [hv] at hids
      exact hids
    · rw [hv] at hids
      exact congrArg (List.cons _) hids

/-- Allocating never fails. -/
theorem exists_performAll_replicate (n : ℕ) (w : Net) :
    ∃ ids w', performAll (List.replicate n .nextPacketId) w = .ok ids w' ∧ ids.length = n := by
  induction n generalizing w with
  | zero => exact ⟨[], w, rfl, rfl⟩
  | succ n ih =>
    obtain ⟨ids, w', hids, hlength⟩ := ih (allocated w)
    have hcall : Call.nextPacketId.perform w =
        .ok (some (succPacketId w.store.nextPacketId)) (allocated w) := rfl
    refine ⟨succPacketId w.store.nextPacketId :: ids, w', ?_, by rw [List.length_cons, hlength]⟩
    rw [List.replicate_succ, performAll, bind_eq, hcall]
    show (performAll (List.replicate n .nextPacketId) >>= fun ids ↦
      return (some (succPacketId w.store.nextPacketId)).toList ++ ids) (allocated w) = _
    rw [bind_eq, hids]
    rfl

/-! ### The publisher of a benchmark -/

namespace Bench

namespace Publisher

open Transition

variable {c : Setting} {s s' : State}

/-- The identifier a step gives to the message it assigns. -/
def allocations (s s' : State) : List PacketId :=
  match s.phase, s'.phase with
  | .permitted, .assigned p _ => p.packetId.toList
  | _, _ => []

theorem allocations_of_phase (h : s'.phase = s.phase) : allocations s s' = [] := by
  unfold allocations
  rw [h]
  rcases s.phase <;> rfl

theorem allocations_of_ne (h : s.phase ≠ .permitted) : allocations s s' = [] := by
  unfold allocations
  split
  next hphase _ => exact absurd hphase h
  next => rfl

/-- A step assigns the next identifier, or leaves the counter alone. -/
theorem allocations_of_move (hm : Move c s s') :
    allocations s s' = [] ∧ s'.nextPacketId = s.nextPacketId ∨
      allocations s s' = [nextId s.nextPacketId] ∧ s'.nextPacketId = nextId s.nextPacketId := by
  have hother : ∀ {phase : Phase}, s.phase = phase → phase ≠ .permitted →
      allocations s s' = [] := fun hphase hne ↦ allocations_of_ne fun h ↦ hne (hphase.symm.trans h)
  cases hm with
  | tick | deliver | raiseStop | dropStop | readEof | readError | complete | completeUnknown
  | freeRefused | free | close => exact Or.inl ⟨allocations_of_phase rfl, rfl⟩
  | read => exact Or.inl ⟨allocations_of_phase (onPacket_phase _ _), onPacket_nextPacketId _ _⟩
  | assign hphase =>
    refine Or.inr ⟨?_, rfl⟩
    simp only [allocations, hphase]
    rfl
  | assignNone hphase =>
    refine Or.inl ⟨?_, rfl⟩
    simp only [allocations, hphase]
  | drained hphase | releaseIgnored hphase =>
    exact Or.inl ⟨hother hphase Phase.noConfusion, drained_nextPacketId _ _⟩
  | receive hphase | release hphase | releaseFails hphase | quotaReached hphase | quotaLeft hphase
  | stopSeen hphase | stopUnseen hphase | due hphase | haltPacing hphase | unacknowledged hphase
  | acquireClosed hphase | acquire hphase | haltAcquiring hphase | insert hphase
  | insertNone hphase | write hphase | writeFails hphase | count hphase | forfeit hphase
  | settled hphase | unsettled hphase | wake hphase | disconnect hphase | disconnectFails hphase
  | joined hphase | timeout hphase => exact Or.inl ⟨hother hphase Phase.noConfusion, rfl⟩

/-- **The identifiers of a publisher's run** count up from 1. -/
theorem allocations_of_history {clock : ℕ} {ids : List PacketId}
    (h : History (Step c) allocations (initial c clock) ids s) :
    ids = List.iterate nextId 1 ids.length ∧ s.nextPacketId = nextId^[ids.length] 0 := by
  refine h.invariant (I := fun ids s ↦
    ids = List.iterate nextId 1 ids.length ∧ s.nextPacketId = nextId^[ids.length] 0) ⟨rfl, rfl⟩ ?_
  rintro ids t u ⟨hids, hnext⟩ hstep
  rcases allocations_of_move (move_of_step hstep) with ⟨hnone, hsame⟩ | ⟨hone, hsucc⟩
  · rw [hnone, List.append_nil, hsame]
    exact ⟨hids, hnext⟩
  · have hlast : nextId t.nextPacketId = nextId^[ids.length] 1 := by
      rw [hnext, ← Function.iterate_succ_apply' nextId, Function.iterate_succ_apply]
      rfl
    rw [hone, List.length_append, List.length_singleton, hsucc]
    refine ⟨?_, ?_⟩
    · rw [List.iterate_add, ← hids, hlast]
      rfl
    · rw [hnext, ← Function.iterate_succ_apply' nextId]

end Publisher

end Bench

/-- **Identifiers are allocated in turn.** A client allocates any number of them from its handshake
on; and whatever else it is called for, and whatever happens in a run of the benchmark's publisher,
the n-th identifier is `(n - 1) % 65535 + 1`. None is 0, and two are the same exactly if their
positions are a multiple of 65535 apart. -/
theorem allocation_roundRobin :
    (∀ keepAlive fault inbox,
      (∀ n, ∃ ids w', performAll (List.replicate n .nextPacketId)
        (Net.connected keepAlive fault inbox) = .ok ids w' ∧ ids.length = n) ∧
      ∀ calls ids w', performAll calls (Net.connected keepAlive fault inbox) = .ok ids w' →
        RoundRobin ids) ∧
    ∀ c clock ids s,
      Transition.History (Bench.Publisher.Step c) Bench.Publisher.allocations
        (Bench.Publisher.initial c clock) ids s → RoundRobin ids := by
  constructor
  · intro keepAlive fault inbox
    refine ⟨fun n ↦ exists_performAll_replicate n _, fun calls ids w' h ↦ ?_⟩
    have hids := (wp_performAll calls (Net.connected keepAlive fault inbox)).of_ok h
    rw [hids]
    exact roundRobin_iterate _
  · intro c clock ids s h
    rw [(Bench.Publisher.allocations_of_history h).1]
    exact roundRobin_iterate _

end PulsemqCli
