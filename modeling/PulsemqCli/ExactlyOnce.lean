import PulsemqCli.Request
import PulsemqCli.Bench.Subscriber
import Mathlib.Data.Finset.Basic

/-!
# Exactly-once delivery

A receiver at QoS 2 owes its application one delivery for each identifier between the PUBREC it
answered and the PUBREL that closes it: a PUBLISH that repeats an identifier still open is
answered again, and not delivered again. `ExactlyOnce` says so of a log.

None of the three receive loops remembers which identifiers are open. So a log one of them
produces is exactly-once precisely when nothing ever puts it to the test, that is when no QoS 2
PUBLISH the loop reads repeats an open identifier.

What a receiver may assume of identifiers is in the protocol: a sender repeats one only to send the
same message again, until it has had the PUBREC. So a broker that resends after a PUBREC was lost,
or resumes a session, is within its rights, and is what the property is about. Whether the loop had
answered by then does not matter; it is the packets read that decide.

`Forgetful` is what the three loops share: they answer each QoS 2 PUBLISH with PUBREC, deliver it,
and keep nothing. Everything is then shown of forgetful manners, with one exchange of a transcript
as the step, and the log that a failed write cut short as the last case.
-/

namespace PulsemqCli

namespace ExactlyOnce

open Reactive Protocol Client Receive

/-! ### Open identifiers -/

/-- The identifier a QoS 2 PUBLISH opens. -/
def opens : Packet → Option PacketId
  | .publish p => if p.qos = .exactlyOnce then p.packetId else none
  | _ => none

/-- The identifiers still open after one more packet was received. -/
def track (ids : Finset PacketId) : Packet → Finset PacketId
  | .publish p => (opens (.publish p)).elim ids (insert · ids)
  | .pubrel rel => ids.erase rel.packetId
  | _ => ids

/-- The identifiers opened by a QoS 2 PUBLISH and not closed by a PUBREL since. -/
def openIds (packets : List Packet) : Finset PacketId :=
  packets.foldl track ∅

/-- No QoS 2 PUBLISH repeats an identifier that is still open. -/
def NoReuse (packets : List Packet) : Prop :=
  ∀ pre p post id, packets = pre ++ p :: post → opens p = some id → id ∉ openIds pre

/-! ### The property -/

/-- The identifiers still answered with PUBREC and unreleased after one more event. -/
def trackEvent (ids : Finset PacketId) : Event → Finset PacketId
  | .sent (.pubrec ack) => insert ack.packetId ids
  | .received (.pubrel rel) => ids.erase rel.packetId
  | _ => ids

/-- The identifiers answered with PUBREC and not closed by a PUBREL since. -/
def answeredIds (log : List Event) : Finset PacketId :=
  log.foldl trackEvent ∅

/-- A QoS 2 PUBLISH whose identifier was answered with PUBREC and is not closed is answered with
PUBREC again, and not delivered again. -/
def Holds (log : List Event) : Prop :=
  ∀ pre p post id, log = pre ++ .received p :: post → opens p = some id →
    id ∈ answeredIds pre →
    .sent (.pubrec ⟨id, .success⟩) ∈ response post ∧ ∀ e ∈ response post, ¬Delivers e

/-! ### Logs of a manner that answers and delivers every QoS 2 PUBLISH -/

variable {σ : Type} {M : Manner σ}

/-- A manner that answers a QoS 2 PUBLISH with PUBREC, and nothing else so, and delivers it
whatever was received before. -/
structure Forgetful (M : Manner σ) : Prop where
  pubrec : ∀ p ack, M.reply p = some (.pubrec ack) ↔
    opens p = some ack.packetId ∧ ack.reasonCode = .success
  delivers : ∀ p id b a, opens p = some id → M.before p b → M.after p a → b ++ a ≠ []

theorem foldl_trackEvent_of_delivers {es : List Event} (h : ∀ e ∈ es, Delivers e)
    (ids : Finset PacketId) : es.foldl trackEvent ids = ids := by
  induction es with
  | nil => rfl
  | cons e es ih =>
    have he : trackEvent ids e = ids := by
      cases e with
      | received q | sent q => exact absurd (h _ List.mem_cons_self) id
      | _ => rfl
    rw [List.foldl_cons, he]
    exact ih fun e' he' ↦ h e' (List.mem_cons_of_mem e he')

/-- One exchange changes the answered identifiers as its packet changes the open ones. -/
theorem foldl_trackEvent_exchange (hM : Forgetful M) {p : Packet} {es : List Event}
    (h : Exchange M p es) (ids : Finset PacketId) :
    es.foldl trackEvent ids = track ids p := by
  obtain ⟨b, a, hb, ha, rfl⟩ := h
  rw [List.cons_append, List.cons_append, List.foldl_cons, List.foldl_append, List.foldl_append,
    foldl_trackEvent_of_delivers (M.before_delivers p b hb),
    foldl_trackEvent_of_delivers (M.after_delivers p a ha)]
  rcases hid : opens p with - | id
  · have hreply : ∀ ids', List.foldl trackEvent ids' ((M.reply p).toList.map .sent) = ids' := by
      intro ids'
      rcases hr : M.reply p with - | r
      · rfl
      · cases r with
        | pubrec ack => simp [((hM.pubrec p ack).1 hr).1] at hid
        | _ => rfl
    rw [hreply]
    cases p with
    | publish m => simp [trackEvent, track, hid]
    | _ => rfl
  · cases p with
    | publish m =>
      rw [(hM.pubrec (.publish m) ⟨id, .success⟩).2 ⟨hid, rfl⟩]
      simp [trackEvent, track, hid]
    | _ => simp [opens] at hid

/-- In a transcript, the identifiers answered and unreleased are those that are open. -/
theorem answeredIds_eq_openIds (hM : Forgetful M) {t : List Event} (h : Transcript M t) :
    answeredIds t = openIds (receivedPackets t) := by
  induction h with
  | nil => rfl
  | ping _ ih =>
    rw [receivedPackets_append, answeredIds, List.foldl_append, ← answeredIds, ih]
    simp [trackEvent]
  | exchange p _ hes ih =>
    rw [receivedPackets_append, hes.receivedPackets, answeredIds, List.foldl_append,
      ← answeredIds, ih, foldl_trackEvent_exchange hM hes, openIds, openIds, List.foldl_append]
    rfl

/-- A response to a repeated QoS 2 PUBLISH is never what exactly-once asks for: it delivers, or
the PUBREC could not be written. -/
theorem not_exactlyOnce_responded (hM : Forgetful M) {p : Packet} {id : PacketId}
    {es : List Event} (hid : opens p = some id) (h : Responded M p es) :
    ¬(.sent (.pubrec ⟨id, .success⟩) ∈ es ∧ ∀ e ∈ es, ¬Delivers e) := by
  rintro ⟨hsent, hnone⟩
  obtain ⟨es', pings, rfl, hpings, ⟨b, a, hb, ha, hes⟩ | ⟨b, r, hb, -, rfl⟩⟩ := h
  · have hes' : es' = b ++ (M.reply p).toList.map .sent ++ a := by simpa using hes
    have hdelivers : ∀ e ∈ b ++ a, Delivers e := fun e he ↦
      (List.mem_append.1 he).elim (M.before_delivers p b hb e) (M.after_delivers p a ha e)
    obtain ⟨e, he⟩ := List.exists_mem_of_ne_nil _ (hM.delivers p id b a hid hb ha)
    refine hnone e ?_ (hdelivers e he)
    rw [hes']
    simp only [List.mem_append] at he ⊢
    exact Or.inl (he.imp Or.inl fun h ↦ h)
  · simp only [List.mem_append, List.mem_singleton] at hsent
    rcases hsent with (hsent | hsent) | hsent
    · exact M.before_delivers p b hb _ hsent
    · cases hsent
    · rcases hpings _ hsent with h | h <;> cases h

/-- **A log of a forgetful manner is exactly-once if and only if nothing tests it.** -/
theorem holds_iff_noReuse (hM : Forgetful M) {t : List Event} (h : Produced M t) :
    Holds t ↔ NoReuse (receivedPackets t) := by
  constructor
  · intro hholds pre p post id heq hid hmem
    obtain ⟨pre', post', hsplit, hpre⟩ := exists_split_of_receivedPackets heq
    obtain ⟨hpre', hresp⟩ := h.split hsplit
    rw [← hpre, ← answeredIds_eq_openIds hM hpre'] at hmem
    exact not_exactlyOnce_responded hM hid hresp (hholds pre' p post' id hsplit hid hmem)
  · intro hno pre p post id heq hid hmem
    obtain ⟨hpre, -⟩ := h.split heq
    rw [answeredIds_eq_openIds hM hpre] at hmem
    exact absurd hmem (hno _ p (receivedPackets post) id (by simp [heq]) hid)

/-! ### The three receive loops -/

/-- The acknowledgement a PUBLISH is due is PUBREC exactly when it opens an identifier. -/
theorem replyTo_eq_pubrec {p : Packet} {ack : PubAck} :
    Subscribe.replyTo p = some (.pubrec ack) ↔
      opens p = some ack.packetId ∧ ack.reasonCode = .success := by
  obtain ⟨id, code⟩ := ack
  cases p with
  | publish m =>
    simp only [Subscribe.replyTo, Subscribe.ackFor, opens]
    rcases m.packetId with - | id'
    · simp
    · cases m.qos <;> simp [eq_comm]
  | _ => simp [Subscribe.replyTo, opens]

/-- The same in `request`, whose reply to a PUBREC is another. -/
theorem request_replyTo_eq_pubrec {p : Packet} {ack : PubAck} :
    Request.replyTo p = some (.pubrec ack) ↔
      opens p = some ack.packetId ∧ ack.reasonCode = .success := by
  by_cases h : ∃ a, p = .pubrec a
  · obtain ⟨a, rfl⟩ := h
    exact ⟨nofun, nofun⟩
  · rw [Request.replyTo_of_ne_pubrec fun a ha ↦ h ⟨a, ha⟩]
    exact replyTo_eq_pubrec

theorem delivery_ne_nil {showTopic : Bool} {p : Packet} {id : PacketId}
    (hid : opens p = some id) : Subscribe.delivery showTopic p ≠ [] := by
  cases p with
  | publish m => exact List.cons_ne_nil _ _
  | _ => cases hid

theorem forgetful_subscribe (showTopic : Bool) (limit : Option ℕ) :
    Forgetful (Subscribe.manner showTopic limit) where
  pubrec _ _ := replyTo_eq_pubrec
  delivers p id b a hid _ ha := by
    rw [show a = Subscribe.delivery showTopic p from ha]
    exact List.append_ne_nil_of_right_ne_nil b (delivery_ne_nil hid)

theorem forgetful_request (showTopic : Bool) (count : ℕ) :
    Forgetful (Request.manner showTopic count) where
  pubrec _ _ := request_replyTo_eq_pubrec
  delivers p id b a hid _ ha := by
    rw [show a = Subscribe.delivery showTopic p from ha]
    exact List.append_ne_nil_of_right_ne_nil b (delivery_ne_nil hid)

theorem forgetful_subscriber (index : ℕ) (t : Bench.Subscriber.Timing) :
    Forgetful (Bench.Subscriber.manner index t) where
  pubrec _ _ := replyTo_eq_pubrec
  delivers p id b a hid hb _ := by
    cases p with
    | publish m =>
      obtain ⟨sample, rfl⟩ := hb
      exact List.cons_ne_nil _ _
    | _ => cases hid

theorem NoReuse.of_isPrefix {ps qs : List Packet} (h : NoReuse qs) (hpre : ps <+: qs) :
    NoReuse ps := by
  obtain ⟨more, rfl⟩ := hpre
  intro pre p post id heq hid
  exact h pre p (post ++ more) id (by simp [heq]) hid

/-- A loop that follows a forgetful manner is exactly-once, whichever of its writes fail, if and
only if no QoS 2 PUBLISH it reads repeats an open identifier. -/
theorem holds_afterwards_iff {α : Type} (hM : Forgetful M)
    {body : σ → Stimulus → Command (σ ⊕ α)} (hbody : Follows M body) (s : σ) (w : Net) :
    (∀ fault, Holds (afterwards (react body s) (w.withFault fault))) ↔
      NoReuse (reads M s w.inbox) := by
  constructor
  · intro h
    obtain ⟨t, ht, hlog, -, hreads⟩ := produces hbody s (w.withFault fun _ ↦ none)
    have hholds := h fun _ ↦ none
    rw [afterwards_of_log hlog, holds_iff_noReuse hM ht, hreads fun _ ↦ rfl] at hholds
    exact hholds
  · intro h fault
    obtain ⟨t, ht, hlog, hreads, -⟩ := produces hbody s (w.withFault fault)
    rw [afterwards_of_log hlog, holds_iff_noReuse hM ht]
    exact h.of_isPrefix hreads

/-- **Exactly-once, exactly.** Whichever writes fail, what a receive loop does after the SUBACK is
exactly-once if and only if no QoS 2 PUBLISH among the packets it reads repeats an identifier
that a PUBREL has not closed. -/
theorem exactlyOnce_iff_noReuse (w : Net) :
    (∀ showTopic limit,
      (∀ fault, Holds (afterwards (Subscribe.receive showTopic limit) (w.withFault fault))) ↔
        NoReuse (reads (Subscribe.manner showTopic limit) 0 w.inbox)) ∧
    (∀ showTopic count,
      (∀ fault, Holds (afterwards (Request.awaitReplies showTopic count) (w.withFault fault))) ↔
        NoReuse (Request.repliesRead showTopic count w.inbox)) ∧
    (∀ index t,
      (∀ fault, Holds (afterwards (Bench.Subscriber.receive index t) (w.withFault fault))) ↔
        NoReuse (reads (Bench.Subscriber.manner index t) ⟨0, []⟩ w.inbox)) := by
  refine ⟨fun showTopic limit ↦ ?_, fun showTopic count ↦ ?_, fun index t ↦ ?_⟩
  · exact holds_afterwards_iff (forgetful_subscribe showTopic limit)
      (Subscribe.follows_receive showTopic limit) 0 w
  · unfold Request.awaitReplies Request.repliesRead
    by_cases hcount : 0 < count
    · simp only [if_pos hcount]
      exact holds_afterwards_iff (forgetful_request showTopic count)
        (Request.follows_awaitReplies showTopic count) 0 w
    · simp only [if_neg hcount]
      have hnil : ∀ fault, afterwards (return ()) (w.withFault fault) = [] :=
        fun _ ↦ afterwards_of_log (List.append_nil _).symm
      refine iff_of_true (fun fault ↦ ?_) fun pre p post id heq ↦ ?_
      · rw [hnil]
        intro pre p post id heq
        simp at heq
      · simp at heq
  · exact holds_afterwards_iff (forgetful_subscriber index t)
      (Bench.Subscriber.follows_receive index t) ⟨0, []⟩ w

/-- A PUBLISH at QoS 2 with identifier 1, or its retransmission. -/
def retried (dup : Bool) : Protocol.Publish where
  dup := dup
  qos := .exactlyOnce
  retain := false
  topic := "t"
  packetId := some 1
  properties := {}
  payload := [0x78]

/-- A broker that retransmits a PUBLISH before the PUBREL has it printed twice. -/
theorem not_holds_retransmitted :
    ¬Holds (afterwards (Subscribe.receive false none) (Net.connected 60 (fun _ ↦ none)
      [.packet (.publish (retried false)), .packet (.publish (retried true))])) := by
  intro h
  obtain ⟨-, hnone⟩ := h
    [.received (.publish (retried false)), .sent (.pubrec ⟨1, .success⟩),
      .printed (retried false) false, .advanced]
    (.publish (retried true))
    [.sent (.pubrec ⟨1, .success⟩), .printed (retried true) false, .advanced] 1 rfl rfl (by decide)
  exact hnone (.printed (retried true) false) (by decide) trivial

end ExactlyOnce

end PulsemqCli
