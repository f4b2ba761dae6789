import PulsemqCli.Publish
import Mathlib.Data.List.Sublists

/-!
# What `pub` has seen when it reports success

A call of `publishOne` that returns has read as many acknowledgements as its QoS asks for. It does
not look at their types or identifiers, so whether they are *its* acknowledgements is up to the
inbound stream: `AllAcknowledged` is what a sequence of calls should establish, `AcksMatch` is the
condition on the inbound stream under which it does, and `allAcknowledged_iff_acksMatch` says that
the two agree.

The comparison is with the publishers of a benchmark, which look an acknowledgement's identifier up
among the messages in flight. `publish_one` takes the first acknowledgement for its own. On a
connection where a call before has left one unread, or where the broker sends one that belongs to a
session it resumes, this is another message's.

The property is about sequences of calls on one connection, since a surplus acknowledgement is read
by the call after. `AcksMatch` reads the inbound stream the way the code does, call by call, and
asks of each acknowledgement it comes to that it has the right type and identifier. `acksReceived`
is the same from the side of the log, and a completed call has read exactly these.
-/

namespace PulsemqCli

namespace Publish

open Reactive Protocol Client

/-! ### What success should mean -/

/-- In these events `p` was sent, and then a PUBACK for it arrived without an error code. -/
def PubackFollows (p : Protocol.Publish) (events : List Event) : Prop :=
  ∃ a : PubAck, p.packetId = some a.packetId ∧ a.reasonCode.isError = false ∧
    [.sent (.publish p), .received (.puback a)].Sublist events

/-- In these events `p` was sent, and then a PUBREC for it arrived without an error code, a PUBREL
for it went out, and a PUBCOMP for it arrived without an error code. -/
def PubcompFollows (p : Protocol.Publish) (events : List Event) : Prop :=
  ∃ r l c : PubAck, p.packetId = some r.packetId ∧ p.packetId = some l.packetId ∧
    p.packetId = some c.packetId ∧ r.reasonCode.isError = false ∧
    c.reasonCode.isError = false ∧
    [.sent (.publish p), .received (.pubrec r), .sent (.pubrel l),
      .received (.pubcomp c)].Sublist events

/-- The events of a call that took the world from `w` to `w'` show that the broker acknowledged
the call's message. -/
def CallAcknowledged (m : Message) (w w' : Net) : Prop :=
  ∃ events, w'.log = w.log ++ events ∧
    match m.qos with
    | .atMostOnce => True
    | .atLeastOnce => PubackFollows (m.toPublish (some (callId w))) events
    | .exactlyOnce => PubcompFollows (m.toPublish (some (callId w))) events

/-- Along a sequence of calls on one connection, every call that returns was acknowledged. -/
def AllAcknowledged : List Message → Net → Prop
  | [], _ => True
  | m :: rest, w =>
    match publishOne m w with
    | .ok _ w' => CallAcknowledged m w w' ∧ AllAcknowledged rest w'
    | .error _ _ => True

/-! ### The condition on the inbound stream -/

/-- The acknowledgements in the inbound stream match the calls that read them: whenever those a
call waits for arrive without an error code, they have the types of its handshake and the call's
identifier. `last` is the identifier allocated last. -/
def AcksMatch : List Message → PacketId → List Stimulus → Prop
  | [], _, _ => True
  | m :: rest, last, xs =>
    match m.qos with
    | .atMostOnce => AcksMatch rest last xs
    | .atLeastOnce => ∀ p a xs', awaitAck xs = some (p, xs') → ackOf p = some a →
        a.reasonCode.isError = false →
          p = .puback a ∧ a.packetId = succPacketId last ∧
            AcksMatch rest (succPacketId last) xs'
    | .exactlyOnce => ∀ p a xs', awaitAck xs = some (p, xs') → ackOf p = some a →
        a.reasonCode.isError = false →
          ∀ q b xs'', awaitAck xs' = some (q, xs'') → ackOf q = some b →
            b.reasonCode.isError = false →
              p = .pubrec a ∧ a.packetId = succPacketId last ∧
                q = .pubcomp b ∧ b.packetId = succPacketId last ∧
                  AcksMatch rest (succPacketId last) xs''

/-! ### The events of one call

A call that returns has sent its PUBLISH, read one acknowledgement, and at QoS 2 sent its PUBREL and
read another. In between there are PINGRESPs, which are no acknowledgements. -/

/-- The acknowledgement an event received, if it did. -/
def ackReceived : Event → Option Packet
  | .received p => if (ackOf p).isSome then some p else none
  | _ => none

/-- The acknowledgements a stretch of events received. -/
def acksReceived (es : List Event) : List Packet :=
  es.filterMap ackReceived

@[simp] theorem acksReceived_nil : acksReceived [] = [] := rfl

@[simp]
theorem acksReceived_append (es es' : List Event) :
    acksReceived (es ++ es') = acksReceived es ++ acksReceived es' :=
  List.filterMap_append

theorem acksReceived_sublist {es es' : List Event} (h : es.Sublist es') :
    (acksReceived es).Sublist (acksReceived es') :=
  h.filterMap _

/-- A PINGRESP is no acknowledgement. -/
theorem acksReceived_of_onlyPings {es : List Event} (h : OnlyPings es) : acksReceived es = [] := by
  refine List.filterMap_eq_nil_iff.2 fun e he ↦ ?_
  rw [h e he]
  rfl

theorem acksReceived_received {p : Packet} {a : PubAck} (h : ackOf p = some a) :
    acksReceived [.received p] = [p] := by
  simp [acksReceived, ackReceived, h]

@[simp]
theorem acksReceived_cons_sent (p : Packet) (es : List Event) :
    acksReceived (.sent p :: es) = acksReceived es :=
  rfl

theorem acksReceived_cons_received {p : Packet} {a : PubAck} (h : ackOf p = some a)
    (es : List Event) : acksReceived (.received p :: es) = p :: acksReceived es := by
  simp [acksReceived, ackReceived, h]

/-- The events of a completed call at QoS 1. -/
theorem Completed.events_atLeastOnce {m : Message} {w w' : Net} (hq : m.qos = .atLeastOnce)
    (h : Completed m w w') : ∃ p a skipped, ackOf p = some a ∧ a.reasonCode.isError = false ∧
      OnlyPings skipped ∧ awaitAck w.inbox = some (p, w'.inbox) ∧
      w'.store.nextPacketId = callId w ∧ w'.store.fault = w.store.fault ∧
      w'.log = w.log ++ (.sent (.publish (m.toPublish (some (callId w)))) :: skipped ++
        [.received p]) := by
  simp only [Completed, hq] at h
  obtain ⟨p, a, rest, hack, hok, hread⟩ := h
  obtain ⟨skipped, hpings, hlog⟩ := hread.log
  have hpub : published m w = (allocated w).wrote
      (.publish (m.toPublish (some (callId w)))) := by
    simp [published, hq]
  refine ⟨p, a, skipped, hack, hok, hpings, ?_, ?_, ?_, ?_⟩
  · rw [hread.inbox]
    simpa only [published_inbox] using hread.next
  · rw [hread.store, hpub]
    rfl
  · rw [hread.store, published_fault]
  · rw [hlog, hpub]
    simp

/-- The events of a completed call at QoS 2. -/
theorem Completed.events_exactlyOnce {m : Message} {w w' : Net} (hq : m.qos = .exactlyOnce)
    (h : Completed m w w') : ∃ p a q b rest skipped skipped', ackOf p = some a ∧
      a.reasonCode.isError = false ∧ ackOf q = some b ∧ b.reasonCode.isError = false ∧
      OnlyPings skipped ∧ OnlyPings skipped' ∧ awaitAck w.inbox = some (p, rest) ∧
      awaitAck rest = some (q, w'.inbox) ∧
      w'.store.nextPacketId = callId w ∧ w'.store.fault = w.store.fault ∧
      w'.log = w.log ++ (.sent (.publish (m.toPublish (some (callId w)))) :: skipped ++
        [.received p, .sent (.pubrel ⟨callId w, .success⟩)] ++ skipped' ++ [.received q]) := by
  simp only [Completed, hq] at h
  obtain ⟨v, p, a, rest, hack, hok, hread, q, b, rest', hack', hok', hread'⟩ := h
  obtain ⟨skipped, hpings, hlog⟩ := hread.log
  obtain ⟨skipped', hpings', hlog'⟩ := hread'.log
  have hpub : published m w = (allocated w).wrote
      (.publish (m.toPublish (some (callId w)))) := by
    simp [published, hq]
  refine ⟨p, a, q, b, rest, skipped, skipped', hack, hok, hack', hok', hpings, hpings', ?_, ?_, ?_,
    ?_, ?_⟩
  · simpa only [published_inbox] using hread.next
  · rw [hread'.inbox]
    simpa only [Net.wrote_inbox, hread.inbox] using hread'.next
  · rw [hread'.store, Net.wrote_nextPacketId, hread.store, hpub]
    rfl
  · rw [hread'.store]
    show v.store.fault = _
    rw [hread.store, published_fault]
  · rw [hlog', Net.wrote_log, hlog, hpub]
    simp

/-- A completed call at QoS 1 was acknowledged exactly if the one acknowledgement it read is a
PUBACK with its identifier. -/
theorem callAcknowledged_atLeastOnce_iff {m : Message} {w w' : Net} {p : Packet} {a : PubAck}
    {skipped : List Event} (hq : m.qos = .atLeastOnce) (hack : ackOf p = some a)
    (hok : a.reasonCode.isError = false) (hpings : OnlyPings skipped)
    (hlog : w'.log = w.log ++ (.sent (.publish (m.toPublish (some (callId w)))) :: skipped ++
      [.received p])) :
    CallAcknowledged m w w' ↔ p = .puback a ∧ a.packetId = callId w := by
  simp only [CallAcknowledged, hq, hlog, List.append_cancel_left_eq]
  constructor
  · rintro ⟨events, rfl, c, hid, -, hsub⟩
    have hacks := acksReceived_sublist hsub
    rw [acksReceived_append, acksReceived_cons_sent, acksReceived_cons_sent,
      acksReceived_of_onlyPings hpings, acksReceived_received hack,
      acksReceived_received (a := c) rfl] at hacks
    obtain rfl : .puback c = p := by simpa using hacks
    obtain rfl : c = a := by simpa [ackOf] using hack
    exact ⟨rfl, (Option.some.inj hid).symm⟩
  · rintro ⟨rfl, hid⟩
    exact ⟨_, rfl, a, by rw [hid]; rfl, hok, by simp⟩

/-- A completed call at QoS 2 was acknowledged exactly if the two acknowledgements it read are a
PUBREC and a PUBCOMP with its identifier, in this order. -/
theorem callAcknowledged_exactlyOnce_iff {m : Message} {w w' : Net} {p q : Packet} {a b : PubAck}
    {skipped skipped' : List Event} (hq : m.qos = .exactlyOnce) (hack : ackOf p = some a)
    (hok : a.reasonCode.isError = false) (hack' : ackOf q = some b)
    (hok' : b.reasonCode.isError = false) (hpings : OnlyPings skipped)
    (hpings' : OnlyPings skipped')
    (hlog : w'.log = w.log ++ (.sent (.publish (m.toPublish (some (callId w)))) :: skipped ++
      [.received p, .sent (.pubrel ⟨callId w, .success⟩)] ++ skipped' ++ [.received q])) :
    CallAcknowledged m w w' ↔ p = .pubrec a ∧ a.packetId = callId w ∧
      q = .pubcomp b ∧ b.packetId = callId w := by
  simp only [CallAcknowledged, hq, hlog, List.append_cancel_left_eq]
  constructor
  · rintro ⟨events, rfl, r, l, c, hr, -, hc, -, -, hsub⟩
    have hacks := acksReceived_sublist hsub
    simp only [acksReceived_append, acksReceived_cons_sent, acksReceived_of_onlyPings hpings,
      acksReceived_of_onlyPings hpings', acksReceived_cons_received hack,
      acksReceived_cons_received hack', acksReceived_cons_received (p := .pubrec r) (a := r) rfl,
      acksReceived_cons_received (p := .pubcomp c) (a := c) rfl] at hacks
    have heq := hacks.eq_of_length (by simp)
    obtain ⟨rfl, rfl⟩ : .pubrec r = p ∧ .pubcomp c = q := by simpa using heq
    obtain rfl : r = a := by simpa [ackOf] using hack
    obtain rfl : c = b := by simpa [ackOf] using hack'
    exact ⟨rfl, (Option.some.inj hr).symm, rfl, (Option.some.inj hc).symm⟩
  · rintro ⟨rfl, ha, rfl, hb⟩
    refine ⟨_, rfl, a, ⟨callId w, .success⟩, b, by rw [ha]; rfl, rfl, by rw [hb]; rfl, hok, hok',
      ?_⟩
    simp

/-! ### Sequences of calls -/

/-- **Success means acknowledged exactly when the acknowledgements match.** If the
acknowledgements of the inbound stream match the calls that read them, every call that returns
was acknowledged; and on a connection whose writes succeed that is necessary as well. -/
theorem allAcknowledged_iff_acksMatch (ms : List Message) (w : Net) :
    (AcksMatch ms w.store.nextPacketId w.inbox → AllAcknowledged ms w) ∧
      (w.AcceptsWrites → AllAcknowledged ms w → AcksMatch ms w.store.nextPacketId w.inbox) := by
  induction ms generalizing w with
  | nil => exact ⟨fun _ ↦ trivial, fun _ _ ↦ trivial⟩
  | cons m rest ih =>
    have hspec := wp_publishOne m w
    cases hrun : publishOne m w with
    | ok _ w' =>
      have hdone : Completed m w w' := hspec.of_ok hrun
      simp only [AllAcknowledged, hrun, AcksMatch]
      cases hq : m.qos with
      | atMostOnce =>
        obtain rfl : w' = w.wrote (.publish (m.toPublish none)) := by
          simpa [Completed, published, hq] using hdone
        have hcall : CallAcknowledged m w (w.wrote (.publish (m.toPublish none))) :=
          ⟨_, Net.wrote_log _ _, by rw [hq]; trivial⟩
        exact ⟨fun h ↦ ⟨hcall, (ih (w.wrote _)).1 h⟩, fun hw h ↦ (ih (w.wrote _)).2 hw h.2⟩
      | atLeastOnce =>
        obtain ⟨p, a, skipped, hack, hok, hpings, hnext, hid, hfault, hlog⟩ :=
          hdone.events_atLeastOnce hq
        rw [callAcknowledged_atLeastOnce_iff hq hack hok hpings hlog]
        have hih := ih w'
        rw [hid] at hih
        constructor
        · intro h
          obtain ⟨hp, ha, hrest⟩ := h p a w'.inbox hnext hack hok
          exact ⟨⟨hp, ha⟩, hih.1 hrest⟩
        · rintro hw ⟨⟨hp, ha⟩, hrest⟩ p' a' xs' hnext' hack' -
          obtain ⟨rfl, rfl⟩ : p = p' ∧ w'.inbox = xs' := by simpa [hnext] using hnext'
          obtain rfl : a = a' := by simpa [hack] using hack'
          exact ⟨hp, ha, hih.2 (fun n ↦ by rw [hfault]; exact hw n) hrest⟩
      | exactlyOnce =>
        obtain ⟨p, a, q, b, left, skipped, skipped', hack, hok, hack', hok', hpings, hpings', hnext,
          hnext', hid, hfault, hlog⟩ := hdone.events_exactlyOnce hq
        rw [callAcknowledged_exactlyOnce_iff hq hack hok hack' hok' hpings hpings' hlog]
        have hih := ih w'
        rw [hid] at hih
        constructor
        · intro h
          obtain ⟨hp, ha, hq', hb, hrest⟩ :=
            h p a left hnext hack hok q b w'.inbox hnext' hack' hok'
          exact ⟨⟨hp, ha, hq', hb⟩, hih.1 hrest⟩
        · rintro hw ⟨⟨hp, ha, hq', hb⟩, hrest⟩ p₀ a₀ xs hp₀ ha₀ - q₀ b₀ xs' hq₀ hb₀ -
          obtain ⟨rfl, rfl⟩ : p = p₀ ∧ left = xs := by simpa [hnext] using hp₀
          obtain rfl : a = a₀ := by simpa [hack] using ha₀
          obtain ⟨rfl, rfl⟩ : q = q₀ ∧ w'.inbox = xs' := by simpa [hnext'] using hq₀
          obtain rfl : b = b₀ := by simpa [hack'] using hb₀
          exact ⟨hp, ha, hq', hb, hih.2 (fun n ↦ by rw [hfault]; exact hw n) hrest⟩
    | error e w' =>
      have hstop := hspec.of_error hrun
      simp only [AllAcknowledged, hrun, AcksMatch]
      refine ⟨fun _ ↦ trivial, fun hw _ ↦ ?_⟩
      have hno := hstop hw
      -- The call failed, so the acknowledgements it waits for are not all there.
      cases hq : m.qos with
      | atMostOnce => simp [hq, HandshakeArrives] at hno
      | atLeastOnce =>
        intro p a xs hnext hack hok
        exact absurd (by rw [hq]; exact ⟨p, a, xs, hnext, hack, hok⟩) hno
      | exactlyOnce =>
        intro p a xs hnext hack hok q b xs' hnext' hack' hok'
        exact absurd (by
          rw [hq]
          exact ⟨p, a, xs, hnext, hack, hok, q, b, xs', hnext', hack', hok'⟩) hno

/-- A QoS 2 call and a QoS 1 call after it, against a broker that completes both handshakes. -/
theorem allAcknowledged_iff_acksMatch_handshakes :
    AllAcknowledged [⟨"x", [104], .exactlyOnce, false, {}⟩, ⟨"x", [105], .atLeastOnce, false, {}⟩]
        (.connected 60 (fun _ ↦ none) [.packet .pingresp, .packet (.pubrec ⟨1, .success⟩),
          .packet (.pubcomp ⟨1, .success⟩), .packet (.puback ⟨2, .success⟩)]) ∧
      AcksMatch [⟨"x", [104], .exactlyOnce, false, {}⟩, ⟨"x", [105], .atLeastOnce, false, {}⟩] 0
        [.packet .pingresp, .packet (.pubrec ⟨1, .success⟩), .packet (.pubcomp ⟨1, .success⟩),
          .packet (.puback ⟨2, .success⟩)] := by
  have hall := (allAcknowledged_iff_acksMatch
    [⟨"x", [104], .exactlyOnce, false, {}⟩, ⟨"x", [105], .atLeastOnce, false, {}⟩]
    (.connected 60 (fun _ ↦ none) [.packet .pingresp, .packet (.pubrec ⟨1, .success⟩),
      .packet (.pubcomp ⟨1, .success⟩), .packet (.puback ⟨2, .success⟩)])).1 (by
    rintro p a xs hp ha - q b ys hq hb -
    obtain ⟨rfl, rfl⟩ : .pubrec ⟨1, .success⟩ = p ∧ [.packet (.pubcomp ⟨1, .success⟩),
        .packet (.puback ⟨2, .success⟩)] = xs := by simpa [Net.connected, awaitAck, ackOf] using hp
    obtain rfl : ⟨1, .success⟩ = a := by simpa [ackOf] using ha
    obtain ⟨rfl, rfl⟩ : .pubcomp ⟨1, .success⟩ = q ∧ [.packet (.puback ⟨2, .success⟩)] = ys := by
      simpa [awaitAck, ackOf] using hq
    obtain rfl : ⟨1, .success⟩ = b := by simpa [ackOf] using hb
    refine ⟨rfl, rfl, rfl, rfl, ?_⟩
    rintro p a xs hp ha -
    obtain ⟨rfl, rfl⟩ : .puback ⟨2, .success⟩ = p ∧ [] = xs := by
      simpa [awaitAck, ackOf] using hp
    obtain rfl : ⟨2, .success⟩ = a := by simpa [ackOf] using ha
    exact ⟨rfl, rfl, trivial⟩)
  exact ⟨hall, (allAcknowledged_iff_acksMatch _ _).2 (fun _ ↦ rfl) hall⟩

/-- On a fresh connection whose broker answers a QoS 1 message with a PUBACK for some other
identifier, the call returns, but nothing acknowledged its message. -/
theorem not_allAcknowledged_foreign_puback :
    ¬AllAcknowledged [⟨"x", [104], .atLeastOnce, false, {}⟩]
      (.connected 60 (fun _ ↦ none) [.packet (.puback ⟨99, .success⟩)]) := by
  rintro ⟨⟨events, hlog, a, hid, -, hsub⟩, -⟩
  obtain rfl : events = [.sent (.publish ⟨false, .atLeastOnce, false, "x", some 1, {}, [104]⟩),
      .received (.puback ⟨99, .success⟩)] := hlog.symm
  have hmem := hsub.subset (List.mem_cons_of_mem _ (List.mem_singleton_self _))
  obtain rfl : a = ⟨99, .success⟩ := by simpa using hmem
  exact absurd hid (by decide)

end Publish

end PulsemqCli
