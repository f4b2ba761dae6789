import PulsemqCli.Closing
import PulsemqCli.Publish.Acknowledged

/-!
# Handshakes a `pub` run leaves open

A run that returned has read as many acknowledgements for each message as its QoS asks for. If
they match the calls that read them, no handshake is open; and as long as no identifier was
allocated twice, they have to.

Several messages on one connection are sent one after the other, and every one of them allocates its
own identifier. While these are distinct, an acknowledgement that is in the log under a message's
identifier can only have been read by its own call (`AcksWithin.packetId_ne`), so a handshake that
is closed was closed by acknowledgements that match. Past 65535 messages an identifier is allocated
twice, and a later call could read what closes an earlier one: the converse is then not claimed.
-/

namespace PulsemqCli

namespace Publish

open Reactive Protocol Client Receive Closing

/-- Every PUBLISH in these events has its terminal acknowledgement after it. -/
def AllTerminal (events : List Event) : Prop :=
  ∀ pre p post, events = pre ++ .sent (.publish p) :: post → Terminal p post

/-! ### Acknowledgements received -/

theorem mem_acksReceived {p : Packet} {a : PubAck} (h : ackOf p = some a) {es : List Event} :
    p ∈ acksReceived es ↔ .received p ∈ es := by
  constructor
  · intro hp
    obtain ⟨e, he, hep⟩ := List.mem_filterMap.1 hp
    cases e with
    | received q =>
      simp only [ackReceived] at hep
      split at hep
      · rw [Option.some.inj hep] at he
        exact he
      · cases hep
    | _ => cases hep
  · intro hp
    exact List.mem_filterMap.2 ⟨_, hp, by simp [ackReceived, h]⟩

/-- The acknowledgements in these events are for identifiers allocated after `last`, within the
next `n` allocations. -/
def AcksWithin (last : PacketId) (n : ℕ) (es : List Event) : Prop :=
  ∀ p ∈ acksReceived es, ∀ a, ackOf p = some a → ∃ k, 1 ≤ k ∧ k ≤ n ∧
    a.packetId = succPacketId^[k] last

theorem AcksWithin.shift {last : PacketId} {n : ℕ} {es : List Event}
    (h : AcksWithin (succPacketId last) n es) : AcksWithin last (n + 1) es := by
  intro p hp a ha
  obtain ⟨k, hk, hkn, hid⟩ := h p hp a ha
  exact ⟨k + 1, by omega, by omega, by rw [Function.iterate_succ_apply]; exact hid⟩

theorem AcksWithin.append {last : PacketId} {n : ℕ} {es es' : List Event}
    (h : AcksWithin last n es) (h' : AcksWithin last n es') : AcksWithin last n (es ++ es') := by
  intro p hp
  rw [acksReceived_append] at hp
  exact (List.mem_append.1 hp).elim (h p) (h' p)

/-- A call's own acknowledgements are for the next identifier. -/
theorem acksWithin_call {last : PacketId} (n : ℕ) {body : List Event}
    (h : ∀ p ∈ acksReceived body, ∀ a, ackOf p = some a → a.packetId = succPacketId last) :
    AcksWithin last (n + 1) body :=
  fun p hp a ha ↦ ⟨1, le_refl 1, by omega, h p hp a ha⟩

/-- The identifier of a call is not acknowledged by the calls after it, as long as the identifiers
do not come round. -/
theorem AcksWithin.packetId_ne {last : PacketId} {n : ℕ} {es : List Event} (hlast : last ≠ 0)
    (h : AcksWithin last n es) (hn : n < 65535) {p : Packet} {a : PubAck} (ha : ackOf p = some a)
    (hp : .received p ∈ es) : a.packetId ≠ last := by
  obtain ⟨k, hk, hkn, hid⟩ := h p ((mem_acksReceived ha).2 hp) a ha
  rw [hid]
  exact iterate_succPacketId_ne hlast hk (lt_of_le_of_lt hkn hn)

/-! ### One call

The events of one call and those of the calls after it, taken apart by the identifier. The two
directions meet here: matching acknowledgements close the call's handshake, and a closed one was
closed by matching acknowledgements if no later call has read them. -/

/-- In the events of a call and what follows, the call's PUBLISH and the later ones are the
PUBLISHes sent. -/
theorem allTerminal_cons {p : Protocol.Publish} {body es : List Event}
    (hbody : ∀ q, .sent (.publish q) ∉ body) :
    AllTerminal (.sent (.publish p) :: body ++ es) ↔
      Terminal p (body ++ es) ∧ AllTerminal es := by
  constructor
  · intro h
    refine ⟨h [] p (body ++ es) rfl, fun pre q post heq ↦ ?_⟩
    exact h (.sent (.publish p) :: body ++ pre) q post (by simp [heq])
  · rintro ⟨hp, hes⟩ pre q post heq
    rcases split_at heq with ⟨post', hcall, rfl⟩ | ⟨pre', heq', -⟩
    · rcases pre with - | ⟨e, pre⟩
      · obtain ⟨hq, rfl⟩ := List.cons_eq_cons.1 hcall
        cases hq
        exact hp
      · obtain ⟨-, hmem⟩ := List.cons_eq_cons.1 hcall
        refine absurd ?_ (hbody q)
        rw [hmem]
        simp
    · exact hes pre' q post heq'

theorem OnlyPings.notMem {es : List Event} (h : OnlyPings es) {e : Event}
    (he : e ≠ .received .pingresp) : e ∉ es :=
  fun hmem ↦ he (h e hmem)

/-- If a call at QoS 1 has its terminal acknowledgement and the calls after it did not read it,
the one acknowledgement it read itself is it. -/
theorem of_terminal_atLeastOnce {m : Message} {id : PacketId} {p : Packet} {a : PubAck}
    {skipped es : List Event} {n : ℕ} (hq : m.qos = .atLeastOnce) (hid : id ≠ 0)
    (hack : ackOf p = some a) (hpings : OnlyPings skipped) (hes : AcksWithin id n es)
    (hn : n < 65535)
    (h : Terminal (m.toPublish (some id)) (skipped ++ [.received p] ++ es)) :
    p = .puback a ∧ a.packetId = id := by
  simp only [Terminal, Message.toPublish, hq] at h
  obtain ⟨c, hc, hmem⟩ := h
  simp only [List.mem_append, List.mem_singleton] at hmem
  rcases hmem with (hmem | hmem) | hmem
  · exact absurd hmem (hpings.notMem (by simp))
  · obtain rfl : .puback c = p := by simpa using hmem
    obtain rfl : c = a := by simpa [ackOf] using hack
    exact ⟨rfl, hc⟩
  · exact absurd hc (hes.packetId_ne hid hn rfl hmem)

/-- If a call at QoS 2 has its terminal acknowledgement and the calls after it read none of it,
the two acknowledgements it read itself make it up. -/
theorem of_terminal_exactlyOnce {m : Message} {id : PacketId} {p q : Packet} {a b : PubAck}
    {skipped skipped' es : List Event} {n : ℕ} (hq : m.qos = .exactlyOnce) (hid : id ≠ 0)
    (hack : ackOf p = some a) (hok : a.reasonCode.isError = false) (hack' : ackOf q = some b)
    (hok' : b.reasonCode.isError = false) (hpings : OnlyPings skipped)
    (hpings' : OnlyPings skipped') (hes : AcksWithin id n es) (hn : n < 65535)
    (h : Terminal (m.toPublish (some id)) (skipped ++
      [.received p, .sent (.pubrel ⟨id, .success⟩)] ++ skipped' ++ [.received q] ++ es)) :
    p = .pubrec a ∧ a.packetId = id ∧ q = .pubcomp b ∧ b.packetId = id := by
  simp only [Terminal, Message.toPublish, hq] at h
  rcases h with ⟨c, hc, herr, hmem⟩ | ⟨r, l, c, hr, -, hc, hsub⟩
  · simp only [List.mem_append, List.mem_cons, List.not_mem_nil, or_false, reduceCtorEq,
      Event.received.injEq] at hmem
    rcases hmem with (((hmem | rfl) | hmem) | rfl) | hmem
    · exact absurd hmem (hpings.notMem (by simp))
    · obtain rfl : c = a := by simpa [ackOf] using hack
      simp [herr] at hok
    · exact absurd hmem (hpings'.notMem (by simp))
    · obtain rfl : c = b := by simpa [ackOf] using hack'
      simp [herr] at hok'
    · exact absurd hc (hes.packetId_ne hid hn rfl hmem)
  · have hacks := acksReceived_sublist hsub
    simp only [acksReceived_append, acksReceived_cons_sent, acksReceived_of_onlyPings hpings,
      acksReceived_of_onlyPings hpings', acksReceived_cons_received hack,
      acksReceived_cons_received hack', acksReceived_cons_received (p := .pubrec r) (a := r) rfl,
      acksReceived_cons_received (p := .pubcomp c) (a := c) rfl] at hacks
    -- None of the two can be among the later acknowledgements.
    have hlater : ∀ x a', ackOf x = some a' → a'.packetId = id → x ∉ acksReceived es :=
      fun x a' hx hid' hmem ↦ hes.packetId_ne hid hn hx ((mem_acksReceived hx).1 hmem) hid'
    obtain ⟨l₁, l₂, heq, hl₁, hl₂⟩ := List.sublist_append_iff.1
      (show [.pubrec r, .pubcomp c].Sublist ([p, q] ++ acksReceived es) from hacks)
    obtain rfl : l₂ = [] := by
      refine List.eq_nil_iff_forall_not_mem.2 fun x hx ↦ ?_
      have hx' : x ∈ [.pubrec r, .pubcomp c] := by
        rw [heq]
        exact List.mem_append_right _ hx
      simp only [List.mem_cons, List.not_mem_nil, or_false] at hx'
      rcases hx' with rfl | rfl
      · exact hlater _ r rfl hr (hl₂.subset hx)
      · exact hlater _ c rfl hc (hl₂.subset hx)
    rw [List.append_nil] at heq
    obtain ⟨rfl, rfl⟩ : .pubrec r = p ∧ .pubcomp c = q := by
      simpa [← heq] using hl₁.eq_of_length (by simp [← heq])
    obtain rfl : r = a := by simpa [ackOf] using hack
    obtain rfl : c = b := by simpa [ackOf] using hack'
    exact ⟨rfl, hr, rfl, hc⟩

theorem OnlyPings.sent_notMem {es : List Event} (h : OnlyPings es) (q : Packet) : .sent q ∉ es :=
  h.notMem nofun

/-! ### Sequences of calls -/

/-- The DISCONNECT at the end of a run. -/
abbrev goodbye : List Event := [.sent (.disconnect .success)]

theorem publishAll_cons_ok {m : Message} {rest : List Message} {w w' : Net}
    (h : publishAll (m :: rest) w = .ok () w') :
    ∃ v, publishOne m w = .ok () v ∧ publishAll rest v = .ok () w' := by
  obtain ⟨⟨⟩, v, hv, hrest⟩ := bind_eq_ok.1 h
  exact ⟨v, hv, hrest⟩

/-- What a run of calls leaves in the log: it has its terminal acknowledgements if the inbound
stream matches, and then what was read belongs to the identifiers allocated. -/
theorem closing_publishAll {ms : List Message} {w w' : Net} (h : publishAll ms w = .ok () w') :
    ∃ es, w'.log = w.log ++ es ∧ (∀ a, .sent (.pubrec a) ∉ es) ∧
      (AcksMatch ms w.store.nextPacketId w.inbox →
        AllTerminal (es ++ goodbye) ∧ AcksWithin w.store.nextPacketId ms.length (es ++ goodbye)) ∧
      (ms.length ≤ 65535 → AllTerminal (es ++ goodbye) →
        AcksMatch ms w.store.nextPacketId w.inbox) := by
  induction ms generalizing w with
  | nil =>
    obtain rfl : w = w' := by
      cases h
      rfl
    refine ⟨[], by simp, by simp, fun _ ↦ ⟨?_, fun p hp ↦ by cases hp⟩, fun _ _ ↦ trivial⟩
    intro pre p post heq
    have hmem : Event.sent (.publish p) ∈ goodbye := by
      rw [show goodbye = _ from heq]
      simp
    simp at hmem
  | cons m rest ih =>
    obtain ⟨v, hv, hrest⟩ := publishAll_cons_ok h
    have hdone : Completed m w v := (wp_publishOne m w).of_ok hv
    obtain ⟨es, hes, hrec, hsuff, hnec⟩ := ih hrest
    cases hq : m.qos with
    | atMostOnce =>
      obtain rfl : v = w.wrote (.publish (m.toPublish none)) := by
        simpa [Completed, published, hq] using hdone
      refine ⟨.sent (.publish (m.toPublish none)) :: es, by simp [hes], by simp [hrec], ?_⟩
      have hcall : AllTerminal (.sent (.publish (m.toPublish none)) :: es ++ goodbye) ↔
          AllTerminal (es ++ goodbye) := by
        rw [show .sent (.publish (m.toPublish none)) :: es ++ goodbye =
          .sent (.publish (m.toPublish none)) :: [] ++ (es ++ goodbye) from rfl,
          allTerminal_cons (by simp)]
        refine and_iff_right ?_
        simp [Terminal, Message.toPublish, hq]
      simp only [AcksMatch, hq, hcall]
      refine ⟨fun hmatch ↦ ⟨(hsuff hmatch).1, fun p hp a ha ↦ ?_⟩, fun hlen hall ↦ ?_⟩
      · obtain ⟨k, hk, hkn, hid⟩ := (hsuff hmatch).2 p hp a ha
        exact ⟨k, hk, hkn.trans (Nat.le_succ _), hid⟩
      · exact hnec ((Nat.le_succ _).trans hlen) hall
    | atLeastOnce =>
      obtain ⟨p, a, skipped, hack, hok, hpings, hnext, hid, -, hlog⟩ :=
        hdone.events_atLeastOnce hq
      rw [hid] at hsuff hnec
      refine ⟨.sent (.publish (m.toPublish (some (callId w)))) :: (skipped ++ [.received p]) ++ es,
        by rw [hes, hlog]; simp, by simp [hrec, hpings.sent_notMem], ?_⟩
      have hbody : ∀ q, .sent (.publish q) ∉ skipped ++ [.received p] := by
        simp [hpings.sent_notMem]
      rw [List.append_assoc, allTerminal_cons hbody]
      constructor
      · intro hmatch
        simp only [AcksMatch, hq] at hmatch
        obtain ⟨rfl, ha, hmatch'⟩ := hmatch p a v.inbox hnext hack hok
        obtain ⟨hall, hwithin⟩ := hsuff hmatch'
        refine ⟨⟨?_, hall⟩, (acksWithin_call rest.length ?_).append hwithin.shift⟩
        · simp only [Terminal, Message.toPublish, hq]
          exact ⟨a, ha, by simp⟩
        · intro x hx c hc
          rw [acksReceived_cons_sent, acksReceived_append, acksReceived_of_onlyPings hpings,
            acksReceived_received hack] at hx
          obtain rfl := List.mem_singleton.1 hx
          obtain rfl : a = c := by simpa [ackOf] using hc
          exact ha
      · rintro hlen ⟨hterminal, hall⟩
        have hmatch := hnec ((Nat.le_succ _).trans hlen) hall
        obtain ⟨rfl, ha⟩ := of_terminal_atLeastOnce hq (succPacketId_ne_zero _) hack hpings
          (hsuff hmatch).2 hlen hterminal
        simp only [AcksMatch, hq]
        rintro p' a' xs' hnext' hack' -
        obtain ⟨rfl, rfl⟩ : .puback a = p' ∧ v.inbox = xs' := by simpa [hnext] using hnext'
        obtain rfl : a = a' := by simpa [hack] using hack'
        exact ⟨rfl, ha, hmatch⟩
    | exactlyOnce =>
      obtain ⟨p, a, q, b, left, skipped, skipped', hack, hok, hack', hok', hpings, hpings', hnext,
        hnext', hid, -, hlog⟩ := hdone.events_exactlyOnce hq
      rw [hid] at hsuff hnec
      refine ⟨.sent (.publish (m.toPublish (some (callId w)))) :: (skipped ++ [.received p,
        .sent (.pubrel ⟨callId w, .success⟩)] ++ skipped' ++ [.received q]) ++ es,
        by rw [hes, hlog]; simp, by simp [hrec, hpings.sent_notMem, hpings'.sent_notMem], ?_⟩
      have hbody : ∀ x, .sent (.publish x) ∉ skipped ++ [.received p,
          .sent (.pubrel ⟨callId w, .success⟩)] ++ skipped' ++ [.received q] := by
        simp [hpings.sent_notMem, hpings'.sent_notMem]
      rw [List.append_assoc, allTerminal_cons hbody]
      constructor
      · intro hmatch
        simp only [AcksMatch, hq] at hmatch
        obtain ⟨rfl, ha, rfl, hb, hmatch'⟩ :=
          hmatch p a left hnext hack hok q b v.inbox hnext' hack' hok'
        obtain ⟨hall, hwithin⟩ := hsuff hmatch'
        refine ⟨⟨?_, hall⟩, (acksWithin_call rest.length ?_).append hwithin.shift⟩
        · simp only [Terminal, Message.toPublish, hq]
          exact Or.inr ⟨a, ⟨callId w, .success⟩, b, ha, rfl, hb, by simp⟩
        · intro x hx c hc
          simp only [acksReceived_append, acksReceived_cons_sent,
            acksReceived_of_onlyPings hpings, acksReceived_of_onlyPings hpings',
            acksReceived_cons_received hack, acksReceived_received hack', acksReceived_nil,
            List.nil_append, List.append_nil, List.singleton_append, List.mem_cons,
            List.not_mem_nil, or_false] at hx
          rcases hx with rfl | rfl
          · obtain rfl : a = c := by simpa [ackOf] using hc
            exact ha
          · obtain rfl : b = c := by simpa [ackOf] using hc
            exact hb
      · rintro hlen ⟨hterminal, hall⟩
        have hmatch := hnec ((Nat.le_succ _).trans hlen) hall
        obtain ⟨rfl, ha, rfl, hb⟩ := of_terminal_exactlyOnce hq (succPacketId_ne_zero _) hack hok
          hack' hok' hpings hpings' (hsuff hmatch).2 hlen hterminal
        simp only [AcksMatch, hq]
        rintro p₀ a₀ xs hp₀ ha₀ - q₀ b₀ xs' hq₀ hb₀ -
        obtain ⟨rfl, rfl⟩ : .pubrec a = p₀ ∧ left = xs := by simpa [hnext] using hp₀
        obtain rfl : a = a₀ := by simpa [hack] using ha₀
        obtain ⟨rfl, rfl⟩ : .pubcomp b = q₀ ∧ v.inbox = xs' := by simpa [hnext'] using hq₀
        obtain rfl : b = b₀ := by simpa [hack'] using hb₀
        exact ⟨rfl, ha, rfl, hb, hmatch⟩

/-- The lines of a run that returned can all be read. -/
theorem publishAll_of_publishLines {args : PubArgs} {lines : List (Except String (List UInt8))}
    {w w' : Net} (h : publishLines args lines w = .ok () w') :
    publishAll (lines.filterMap fun line ↦ line.toOption.map args.message) w = .ok () w' := by
  induction lines generalizing w with
  | nil => exact h
  | cons line rest ih =>
    rcases line with e | payload
    · cases h
    · obtain ⟨⟨⟩, v, hv, hrest⟩ := bind_eq_ok.1 h
      exact bind_eq_ok.2 ⟨(), v, hv, ih hrest⟩

/-- A run that returned made its calls and said goodbye. -/
theorem run_ok {args : PubArgs} {w w' : Net} (h : run args w = .ok () w') :
    ∃ v, publishAll args.messages w = .ok () v ∧ w'.log = v.log ++ goodbye := by
  have hsplit : ∃ v, publishAll args.messages w = .ok () v ∧ disconnect v = .ok () w' := by
    unfold run at h
    unfold PubArgs.messages
    rcases hsource : args.source with payload | lines
    · rw [hsource] at h
      obtain ⟨⟨⟩, v, hv, hd⟩ := bind_eq_ok.1 h
      exact ⟨v, bind_eq_ok.2 ⟨(), v, hv, rfl⟩, hd⟩
    · rw [hsource] at h
      obtain ⟨⟨⟩, v, hv, hd⟩ := bind_eq_ok.1 h
      exact ⟨v, publishAll_of_publishLines hv, hd⟩
  obtain ⟨v, hv, hd⟩ := hsplit
  refine ⟨v, hv, ?_⟩
  have hspec : wp disconnect (fun _ w' ↦ w'.log = v.log ++ goodbye) (fun _ _ ↦ True) v :=
    wp_send _ rfl fun _ _ ↦ trivial
  exact hspec.of_ok hd

/-- **Closing a `pub` run.** A run that returned left no handshake open if its acknowledgements
matched its calls, and, as long as no identifier came round, only if they did. -/
theorem closed_run {args : PubArgs} {w w' : Net} (h : run args w = .ok () w') :
    (AcksMatch args.messages w.store.nextPacketId w.inbox →
      Closed (w'.log.drop w.log.length)) ∧
    (args.messages.length ≤ 65535 → Closed (w'.log.drop w.log.length) →
      AcksMatch args.messages w.store.nextPacketId w.inbox) := by
  obtain ⟨v, hv, hlog⟩ := run_ok h
  obtain ⟨es, hes, hrec, hsuff, hnec⟩ := closing_publishAll hv
  have hevents : w'.log.drop w.log.length = es ++ goodbye := by
    rw [hlog, hes, List.append_assoc, List.drop_left]
  rw [hevents]
  refine ⟨fun hmatch ↦ ⟨(hsuff hmatch).1, fun pre a post heq ↦ ?_⟩,
    fun hlen hclosed ↦ hnec hlen hclosed.sent⟩
  have hmem : .sent (.pubrec a) ∈ es ++ goodbye := by
    rw [heq]
    simp
  simp [hrec] at hmem

end Publish

end PulsemqCli
