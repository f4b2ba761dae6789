import PulsemqCli.Request
import PulsemqCli.ExactlyOnce

/-!
# Handshakes a run leaves open

A command that exits successfully should leave no handshake open: every PUBLISH it sent at QoS 1
or 2 has its terminal acknowledgement, and every PUBREC it sent was followed by the PUBREL that
releases it and the PUBCOMP that answers that. `Closed` says so of a run's events.

For the two commands that receive messages this module reduces the receiving side to a condition
on the packets read, `Released`, and the sending side of `request` to another, `Terminates`.

A handshake is looked at in the log only. Whether it is open is settled by what follows the packet
that opens it, in order and under the same identifier, and the DISCONNECT is not asked to wait for
it: a run that returns early leaves a handshake open exactly if what would close it is not in the
log before its end.

The receiving side depends on what the loop had to read up to its limit. A loop that is done does
not read on, so the PUBREL of a QoS 2 message that is the last one is never read. This is why
`Released` is about the packets that were read, and not about those that the broker sent.
-/

namespace PulsemqCli

namespace Closing

open Reactive Protocol Client Receive ExactlyOnce

/-! ### The property -/

/-- These events, which follow the PUBLISH `p`, hold its terminal acknowledgement: PUBACK at
QoS 1; PUBREC, PUBREL and PUBCOMP at QoS 2, or a PUBREC with an error code. -/
def Terminal (p : Protocol.Publish) (events : List Event) : Prop :=
  match p.qos, p.packetId with
  | .atLeastOnce, some id => ∃ a, a.packetId = id ∧ .received (.puback a) ∈ events
  | .exactlyOnce, some id =>
    (∃ a, a.packetId = id ∧ a.reasonCode.isError ∧ .received (.pubrec a) ∈ events) ∨
      ∃ r l c, r.packetId = id ∧ l.packetId = id ∧ c.packetId = id ∧
        [.received (.pubrec r), .sent (.pubrel l), .received (.pubcomp c)].Sublist events
  | _, _ => True

/-- No handshake is open at the end of these events. -/
structure Closed (events : List Event) : Prop where
  sent : ∀ pre p post, events = pre ++ .sent (.publish p) :: post → Terminal p post
  received : ∀ pre a post, events = pre ++ .sent (.pubrec a) :: post → ∃ rel comp,
    rel.packetId = a.packetId ∧ comp.packetId = a.packetId ∧
      [.received (.pubrel rel), .sent (.pubcomp comp)].Sublist post

/-! ### The conditions on the packets read -/

/-- Every QoS 2 PUBLISH is followed by a PUBREL for its identifier. -/
def Released (packets : List Packet) : Prop :=
  ∀ pre p post id, packets = pre ++ p :: post → opens p = some id →
    ∃ rel, rel.packetId = id ∧ .pubrel rel ∈ post

/-- The packets hold the terminal acknowledgement of the request `id`: PUBACK at QoS 1; at QoS 2
PUBREC and then PUBCOMP, or a PUBREC with an error code. -/
def Terminates (qos : QoS) (id : PacketId) (packets : List Packet) : Prop :=
  match qos with
  | .atMostOnce => True
  | .atLeastOnce => ∃ a, a.packetId = id ∧ .puback a ∈ packets
  | .exactlyOnce =>
    (∃ a, a.packetId = id ∧ a.reasonCode.isError ∧ .pubrec a ∈ packets) ∨
      ∃ r c, r.packetId = id ∧ c.packetId = id ∧ [.pubrec r, .pubcomp c].Sublist packets

/-! ### The receiving side -/

/-- The replies a receiving manner gives to QoS 2 PUBLISHes and PUBRELs, and only to them. -/
structure Receives {σ : Type} (M : Manner σ) : Prop where
  pubrec : ∀ p a, M.reply p = some (.pubrec a) ↔ opens p = some a.packetId ∧ a.reasonCode = .success
  pubrel : ∀ a, M.reply (.pubrel a) = some (.pubcomp ⟨a.packetId, .success⟩)

variable {σ : Type} {M : Manner σ} {u d : List Event}

/-- The packets read after a packet of a transcript. -/
theorem exists_split_of_eq {packets qs : List Packet} {p : Packet}
    (h : receivedPackets u = packets ++ p :: qs) :
    ∃ pre post, u = pre ++ .received p :: post ∧ receivedPackets pre = packets ∧
      receivedPackets post = qs := by
  obtain ⟨pre, post, rfl, rfl⟩ := exists_split_of_receivedPackets h
  exact ⟨pre, post, rfl, rfl, by simpa using h⟩

/-- A receiver's PUBRECs are all released and completed exactly if its QoS 2 PUBLISHes are. -/
theorem received_iff_released (hM : Receives M) (hu : Transcript M u) :
    (∀ pre a post, u ++ [.sent (.disconnect .success)] = pre ++ .sent (.pubrec a) :: post →
      ∃ rel comp, rel.packetId = a.packetId ∧ comp.packetId = a.packetId ∧
        [.received (.pubrel rel), .sent (.pubcomp comp)].Sublist post) ↔
      Released (receivedPackets u) := by
  constructor
  · intro h ps p qs id heq hid
    obtain ⟨pre, post, hsplit, -, hqs⟩ := exists_split_of_eq heq
    have hreply : M.reply p = some (.pubrec ⟨id, .success⟩) := (hM.pubrec _ _).2 ⟨hid, rfl⟩
    obtain ⟨x, y, hxy⟩ :=
      List.append_of_mem (response_subset _ (hu.reply_mem_response hsplit hreply))
    obtain ⟨rel, comp, hrel, -, hsub⟩ := h (pre ++ .received p :: x) ⟨id, .success⟩
      (y ++ [.sent (.disconnect .success)]) (by simp [hsplit, hxy])
    refine ⟨rel, hrel, ?_⟩
    have hmem : .received (.pubrel rel) ∈ y ++ [.sent (.disconnect .success)] :=
      hsub.subset List.mem_cons_self
    rw [← hqs, mem_receivedPackets, hxy]
    simpa using Or.inr hmem
  · intro h pre a post heq
    rcases split_at heq with ⟨post', hsplit, rfl⟩ | ⟨pre', hd, -⟩
    · obtain hping | ⟨p, pre', b, hreply, rfl, hb⟩ := hu.sent_split hsplit
      · cases hping
      obtain ⟨rel, hrel, hmem⟩ := h (receivedPackets pre') p (receivedPackets post') a.packetId
        (by simp [hsplit, hb.receivedPackets_eq_nil]) ((hM.pubrec p a).1 hreply).1
      obtain ⟨c, e, rfl⟩ := List.append_of_mem (mem_receivedPackets.1 hmem)
      have hrel' : u = (pre' ++ .received p :: b ++ .sent (.pubrec a) :: c) ++
          .received (.pubrel rel) :: e := by
        simp [hsplit]
      have hcomp := response_subset e (hu.reply_mem_response hrel' (hM.pubrel rel))
      refine ⟨rel, ⟨rel.packetId, .success⟩, hrel, hrel, ?_⟩
      have hsub : [.received (.pubrel rel), .sent (.pubcomp ⟨rel.packetId, .success⟩)].Sublist
          (.received (.pubrel rel) :: e) := (List.singleton_sublist.2 hcomp).cons_cons _
      refine hsub.trans ?_
      rw [List.append_assoc]
      exact (List.sublist_append_left _ _).trans (List.sublist_append_right _ _)
    · have hmem : Event.sent (.pubrec a) ∈ [Event.sent (.disconnect .success)] := by
        rw [hd]
        simp
      simp at hmem

/-! ### The sending side of a request -/

/-- A request whose PUBRECs are all answered with PUBREL has its terminal acknowledgement exactly
if the packets read hold it. -/
theorem terminal_iff_terminates
    (hM : ∀ a, M.reply (.pubrec a) = some (.pubrel ⟨a.packetId, .success⟩))
    (hu : Transcript M u) {p : Protocol.Publish} {id : PacketId} (hid : p.packetId = some id) :
    Terminal p (u ++ [.sent (.disconnect .success)]) ↔
      Terminates p.qos id (receivedPackets u) := by
  have hmem : ∀ q, .received q ∈ u ++ [.sent (.disconnect .success)] ↔
      q ∈ receivedPackets u := by
    intro q
    rw [mem_receivedPackets]
    simp
  cases hq : p.qos with
  | atMostOnce => simp [Terminal, Terminates, hq]
  | atLeastOnce => simp only [Terminal, Terminates, hq, hid, hmem]
  | exactlyOnce =>
    simp only [Terminal, Terminates, hq, hid, hmem]
    refine or_congr Iff.rfl ⟨?_, ?_⟩
    · rintro ⟨r, l, c, hr, -, hc, hsub⟩
      refine ⟨r, c, hr, hc, ?_⟩
      simpa using receivedPackets_sublist hsub
    · rintro ⟨r, c, hr, hc, hsub⟩
      obtain ⟨r₁, r₂, heq, hr₁, hr₂⟩ := List.cons_sublist_iff.1 hsub
      obtain ⟨a, b, rfl⟩ := List.append_of_mem hr₁
      obtain ⟨pre, post, hsplit, -, hpost⟩ := exists_split_of_eq
        (show receivedPackets u = a ++ .pubrec r :: (b ++ r₂) by simpa using heq)
      have hcomp : .received (.pubcomp c) ∈ post := by
        rw [← mem_receivedPackets, hpost]
        exact List.mem_append_right b (List.singleton_sublist.1 hr₂)
      have hrest := sublist_of_mem_response
        (hu.reply_mem_response hsplit (hM r)) hcomp
      refine ⟨r, ⟨r.packetId, .success⟩, c, hr, hr, hc, ?_⟩
      rw [hsplit, List.append_assoc]
      exact ((hrest.cons_cons _).trans (List.sublist_append_left _ _)).trans
        (List.sublist_append_right _ _)

end Closing

end PulsemqCli
