import PulsemqCli.Publish

/-!
# Publishing amid other traffic

A broker may send what a publish did not ask for: a message of a resumed session, a SUBACK, a
PINGRESP. Here two runs of `publishOne` are compared, one over an inbound stream and one over the
same stream with such packets inserted. `expect_ack` goes past PINGRESP alone. Any other packet that
it reads fails the call, and so what was inserted makes no difference exactly as long as it is
PINGRESP, or comes after the call has ended.

Inserting packets is described on the stream: an `Inbound` marks which of its stimuli are inserted,
and `original` and `whole` are the two streams the call can be run over. So the insertions are
arbitrary in number, kind and place, and the two runs are compared by induction over one list.

Of the packets that can be inserted, an acknowledgement and a DISCONNECT are left out: these are
about the call, or end it. `expect_ack` returns at the first acknowledgement whatever its
identifier, which is the matter of `Publish.Acknowledged`.

A wait over the whole stream ends like the original one, or fails at an inserted packet; `compared`
decides which. Failing can still be the same outcome, if the original wait fails with what the user
would be told just the same (`EndsLike`). The error text names the packet's type, and not what is in
it.
-/

namespace PulsemqCli

namespace Publish

open Reactive Protocol Client

/-- The packets that are neither acknowledgements nor DISCONNECT. -/
def unrelated : Packet → Bool
  | .puback _ | .pubrec _ | .pubcomp _ | .disconnect _ => false
  | _ => true

/-- An inbound stream, with the unrelated packets that are inserted into it. -/
abbrev Inbound := List (Stimulus ⊕ {p : Packet // unrelated p = true})

/-- The stream without what is inserted. -/
def original : Inbound → List Stimulus
  | [] => []
  | .inl x :: rest => x :: original rest
  | .inr _ :: rest => original rest

/-- The stream with what is inserted. -/
def whole : Inbound → List Stimulus
  | [] => []
  | .inl x :: rest => x :: whole rest
  | .inr p :: rest => .packet p :: whole rest

/-- The same world with other stimuli to come. -/
def hearing (w : Net) (xs : List Stimulus) : Net :=
  { w with inbox := xs }

/-! ### Outcomes

An outcome is what a user of the program could tell: whether the call returned, the text of its
error, and which PUBLISH and PUBREL packets were sent. What was read is not part of it. -/

/-- What a user is told of an error: of a packet that was not expected, its name. -/
def told : Stop Error → Option (Error ⊕ String × ℕ)
  | .waiting => none
  | .failed (.mqtt (.protocol expected got)) => some (.inr (expected, got.ctorIdx))
  | .failed e => some (.inl e)

/-- The PUBLISH and PUBREL packets that were sent, the last one perhaps in vain. -/
def sends (log : List Event) : List Packet :=
  log.filterMap fun
    | .sent (.publish p) | .unsent (.publish p) => some (.publish p)
    | .sent (.pubrel a) | .unsent (.pubrel a) => some (.pubrel a)
    | _ => none

/-- Two calls end alike: both return, or both are told the same error, or both still wait. -/
def SameResult : Outcome Stimulus Event Session Error Unit →
    Outcome Stimulus Event Session Error Unit → Prop
  | .ok _ _, .ok _ _ => True
  | .error e _, .error f _ => told e = told f
  | _, _ => False

/-- Two calls have the same result, and sent the same PUBLISH and PUBREL packets. -/
def SameOutcome (o o' : Outcome Stimulus Event Session Error Unit) : Prop :=
  SameResult o o' ∧ sends (Outcome.world o).log = sends (Outcome.world o').log

/-! ### What is inserted before a wait ends -/

/-- What `expect_ack` says of a packet that it does not expect. -/
def unexpected (p : Packet) : Error :=
  .mqtt (.protocol "expected an acknowledgement" p)

/-- A wait that ends with the error it would end with at the packet `p`: at a packet of the same
type, or at a read that fails with these very words. -/
def EndsLike (p : Packet) : List Stimulus → Prop
  | [] => False
  | .packet q :: rest =>
    match ackOf q with
    | some _ => False
    | none => if q = .pingresp then EndsLike p rest else q.ctorIdx = p.ctorIdx
  | .idle :: rest | .stop :: rest => EndsLike p rest
  | .readError (.protocol expected q) :: _ =>
    expected = "expected an acknowledgement" ∧ q.ctorIdx = p.ctorIdx
  | .readError _ :: _ | .eof :: _ => False

/-- Nothing is inserted but PINGRESP before the stimulus that ends the wait, unless the wait would
have ended with the same error. -/
def Quiet : Inbound → Prop
  | [] => True
  | .inr p :: rest => if p.1 = .pingresp then Quiet rest else EndsLike p.1 (original rest)
  | .inl (.packet q) :: rest => q = .pingresp → Quiet rest
  | .inl .idle :: rest | .inl .stop :: rest => Quiet rest
  | .inl .eof :: _ | .inl (.readError _) :: _ => True

/-- The acknowledgement that ends the wait where nothing is inserted, with what comes after it. -/
def nextAck : Inbound → Option (PubAck × Inbound)
  | [] => none
  | .inr _ :: rest => nextAck rest
  | .inl (.packet q) :: rest =>
    match ackOf q with
    | some a => some (a, rest)
    | none => if q = .pingresp then nextAck rest else none
  | .inl .idle :: rest | .inl .stop :: rest => nextAck rest
  | .inl .eof :: _ | .inl (.readError _) :: _ => none

/-- What is inserted does not come in the way of the call: where its PUBLISH is written, the wait
for an acknowledgement is quiet; and at QoS 2 so is the second one, where the first acknowledgement
is not an error and the PUBREL is written. -/
def Undisturbed (m : Message) (w : Net) (heard : Inbound) : Prop :=
  w.store.fault w.store.writes = none →
    match m.qos with
    | .atMostOnce => True
    | .atLeastOnce => Quiet heard
    | .exactlyOnce => Quiet heard ∧ ∀ a rest, nextAck heard = some (a, rest) →
        a.reasonCode.isError = false → w.store.fault (w.store.writes + 1) = none → Quiet rest

/-! ### One wait

Two runs of one wait are compared, from worlds that have sent the same. Either both end alike and
have sent the same; or the run over the whole stream fails at an inserted packet, with an error the
other did not end with. -/

variable {what : String} {w v : Net} {s : Session} {sent : List Packet}

/-- The store and what was sent, which reading leaves as they are. -/
structure At (s : Session) (sent : List Packet) (w : Net) : Prop where
  store : w.store = s
  sends : sends w.log = sent

/-- A packet read is not a write. -/
theorem At.read (h : At s sent w) (p : Packet) : At s sent (w.read p) where
  store := h.store
  sends := by
    rw [Net.read_log, Publish.sends, List.filterMap_append]
    exact (List.append_nil _).trans h.sends

/-- What is still to come is not part of what was sent. -/
theorem At.hearing (h : At s sent w) (xs : List Stimulus) : At s sent (hearing w xs) :=
  ⟨h.store, h.sends⟩

/-- A PUBREL is sent. -/
theorem At.pubrel (h : At s sent w) (a : PubAck) :
    At { s with writes := s.writes + 1 } (sent ++ [.pubrel a]) (w.wrote (.pubrel a)) where
  store := by
    rw [← h.store]
    rfl
  sends := by
    rw [Net.wrote_log, Publish.sends, List.filterMap_append]
    exact congrArg (· ++ [Packet.pubrel a]) h.sends

/-- A PUBREL that could not be sent is counted as one that was tried. -/
theorem At.sends_unwrote (h : At s sent w) (a : PubAck) :
    Publish.sends (w.unwrote (.pubrel a)).log = sent ++ [.pubrel a] := by
  rw [Net.unwrote_log, Publish.sends, List.filterMap_append]
  exact congrArg (· ++ [Packet.pubrel a]) h.sends

/-- How a wait over the original stream ends, and how one over the whole stream. -/
inductive Compared (heard : Inbound) (s : Session) (sent : List Packet) :
    Outcome Stimulus Event Session Error ReasonCode →
      Outcome Stimulus Event Session Error ReasonCode → Prop
  | acknowledged {a rest w v} : Quiet heard → nextAck heard = some (a, rest) → At s sent w →
      At s sent v → Compared heard s sent (.ok a.reasonCode (Publish.hearing w (original rest)))
        (.ok a.reasonCode (Publish.hearing v (whole rest)))
  | failed {e f w v} : nextAck heard = none → (told e = told f ↔ Quiet heard) → At s sent w →
      At s sent v → Compared heard s sent (.error e w) (.error f v)
  | overheard {code w p v} : ¬Quiet heard → At s sent w → At s sent v →
      Compared heard s sent (.ok code w) (.error (.failed (unexpected p)) v)

/-- `expect_ack` goes past a PINGRESP. -/
theorem expectAck_pingresp (xs : List Stimulus) :
    expectAck what (hearing w (.packet .pingresp :: xs)) =
      expectAck what (hearing (w.read .pingresp) xs) :=
  rfl

/-- It ends with the first acknowledgement. -/
theorem expectAck_ack {p : Packet} {a : PubAck} (h : ackOf p = some a) (xs : List Stimulus) :
    expectAck what (hearing w (.packet p :: xs)) = .ok a.reasonCode (hearing (w.read p) xs) := by
  cases p with
  | puback | pubrec | pubcomp =>
    cases h
    rfl
  | _ => cases h

/-- And it fails at any other packet. -/
theorem expectAck_unexpected {p : Packet} (h : unrelated p = true) (hping : p ≠ .pingresp)
    (xs : List Stimulus) : expectAck what (hearing w (.packet p :: xs)) =
      .error (.failed (unexpected p)) (hearing (w.read p) xs) := by
  cases p with
  | puback | pubrec | pubcomp | disconnect => cases h
  | pingresp => exact absurd rfl hping
  | _ => rfl

/-- How a wait ends, compared with the failure at the packet `p`. -/
theorem expectAck_endsLike (what : String) {p : Packet} (hp : unrelated p = true)
    (xs : List Stimulus) (hw : At s sent w) :
    match expectAck what (hearing w xs) with
    | .ok _ w' => At s sent w' ∧ ¬EndsLike p xs
    | .error e w' => At s sent w' ∧ (told e = told (.failed (unexpected p)) ↔ EndsLike p xs) := by
  induction xs generalizing w with
  | nil => exact ⟨hw.hearing [], by simp [told, unexpected, EndsLike]⟩
  | cons x rest ih =>
    cases x with
    | packet q =>
      cases hq : ackOf q with
      | some a =>
        rw [expectAck_ack hq]
        exact ⟨(hw.read q).hearing rest, by simp [EndsLike, hq]⟩
      | none =>
        by_cases hping : q = .pingresp
        · subst hping
          rw [expectAck_pingresp]
          simpa [EndsLike, ackOf] using ih (hw.read .pingresp)
        · rw [EndsLike, hq]
          simp only [if_neg hping]
          cases hqu : unrelated q with
          | true =>
            rw [expectAck_unexpected hqu hping]
            exact ⟨(hw.read q).hearing rest, by simp [told, unexpected]⟩
          | false =>
            -- A packet that is neither unrelated nor an acknowledgement.
            cases q with
            | disconnect code =>
              refine ⟨(hw.read _).hearing rest, iff_of_false (fun htold ↦ ?_) fun hidx ↦ ?_⟩
              · cases htold
              · cases p with
                | disconnect => cases hp
                | _ => cases hidx
            | puback | pubrec | pubcomp => cases hq
            | _ => cases hqu
    | idle => exact ih (hw.hearing _)
    | stop => exact ih (hw.hearing _)
    | eof => exact ⟨hw.hearing rest, by simp [told, unexpected, EndsLike]⟩
    | readError e => exact ⟨hw.hearing rest, by cases e <;> simp [told, unexpected, EndsLike]⟩

/-- The original stream's next acknowledgement ends the wait over it. -/
theorem expectAck_of_nextAck (what : String) (w : Net) {heard rest : Inbound} {a : PubAck}
    (h : nextAck heard = some (a, rest)) :
    ∃ w', expectAck what (hearing w (original heard)) = .ok a.reasonCode w' := by
  induction heard generalizing w with
  | nil => cases h
  | cons x heard ih =>
    rcases x with x | p
    · cases x with
      | packet q =>
        rw [nextAck] at h
        cases hq : ackOf q with
        | some b =>
          rw [hq] at h
          cases h
          exact ⟨_, expectAck_ack hq _⟩
        | none =>
          rw [hq] at h
          simp only at h
          split at h
          next hping =>
            rw [hping, original, expectAck_pingresp]
            exact ih _ h
          next => cases h
      | idle | stop => exact ih _ h
      | eof | readError => cases h
    · exact ih _ h

/-- What neither ends nor disturbs the wait is passed over in both streams. -/
theorem Compared.pass {heard heard' : Inbound}
    {o o' : Outcome Stimulus Event Session Error ReasonCode} (h : Compared heard s sent o o')
    (hquiet : Quiet heard' ↔ Quiet heard)
    (hack : nextAck heard' = nextAck heard) : Compared heard' s sent o o' := by
  cases h with
  | acknowledged hq ha hw hv => exact .acknowledged (hquiet.2 hq) (hack.trans ha) hw hv
  | failed ha hq hw hv => exact .failed (hack.trans ha) (hq.trans hquiet.symm) hw hv
  | overheard hq hw hv => exact .overheard (fun h ↦ hq (hquiet.1 h)) hw hv

/-- An inserted packet that is not PINGRESP fails the wait over the whole stream. -/
theorem compared_inserted (what : String) {p : Packet} (hp : unrelated p = true)
    (hping : p ≠ .pingresp) (heard : Inbound) (hw : At s sent w) (hv : At s sent v) :
    Compared (.inr ⟨p, hp⟩ :: heard) s sent (expectAck what (hearing w (original heard)))
      (.error (.failed (unexpected p)) v) := by
  have hends := expectAck_endsLike what hp (original heard) hw
  have hquiet : Quiet (.inr ⟨p, hp⟩ :: heard) ↔ EndsLike p (original heard) := by
    rw [Quiet, if_neg hping]
  cases ho : expectAck what (hearing w (original heard)) with
  | ok code w' =>
    rw [ho] at hends
    exact .overheard (fun h ↦ hends.2 (hquiet.1 h)) hends.1 hv
  | error e w' =>
    rw [ho] at hends
    have hack : nextAck heard = none := by
      refine Option.eq_none_iff_forall_ne_some.2 fun ⟨a, rest⟩ ha ↦ ?_
      obtain ⟨w'', hok⟩ := expectAck_of_nextAck what w ha
      cases ho.symm.trans hok
    exact .failed hack (hends.2.trans hquiet.symm) hends.1 hv

/-- **Two waits compared.** Over the whole stream a wait ends as over the original one exactly where
it is quiet. -/
theorem compared (what : String) (heard : Inbound) (hw : At s sent w) (hv : At s sent v) :
    Compared heard s sent (expectAck what (hearing w (original heard)))
      (expectAck what (hearing v (whole heard))) := by
  induction heard generalizing w v with
  | nil => exact .failed rfl (iff_of_true rfl trivial) (hw.hearing []) (hv.hearing [])
  | cons x heard ih =>
    rcases x with x | ⟨p, hp⟩
    · cases x with
      | packet q =>
        cases hq : ackOf q with
        | some a =>
          have hquiet : Quiet (.inl (.packet q) :: heard) := by
            rintro rfl
            cases hq
          rw [original, whole, expectAck_ack hq, expectAck_ack hq]
          exact .acknowledged hquiet (by rw [nextAck, hq]) (hw.read q) (hv.read q)
        | none =>
          by_cases hping : q = .pingresp
          · subst hping
            rw [original, whole, expectAck_pingresp, expectAck_pingresp]
            exact (ih (hw.read _) (hv.read _)).pass (by simp [Quiet]) (by simp [nextAck, ackOf])
          · have hack : nextAck (.inl (.packet q) :: heard) = none := by
              simp [nextAck, hq, hping]
            have hquiet : Quiet (.inl (.packet q) :: heard) := fun h ↦ absurd h hping
            cases q with
            | puback | pubrec | pubcomp => cases hq
            | pingresp => exact absurd rfl hping
            | _ =>
              exact .failed hack (iff_of_true rfl hquiet) ((hw.read _).hearing _)
                ((hv.read _).hearing _)
      | idle => exact (ih (hw.hearing _) (hv.hearing _)).pass Iff.rfl rfl
      | stop => exact (ih (hw.hearing _) (hv.hearing _)).pass Iff.rfl rfl
      | eof | readError =>
        exact .failed rfl (iff_of_true rfl trivial) (hw.hearing _) (hv.hearing _)
    · by_cases hping : p = .pingresp
      · subst hping
        rw [original, whole, expectAck_pingresp]
        exact (ih hw (hv.read _)).pass (by simp [Quiet]) rfl
      · rw [whole, expectAck_unexpected hp hping]
        exact compared_inserted what hp hping heard hw ((hv.read p).hearing _)

/-! ### Calls

At QoS 1 a call is one wait with its check. At QoS 2 it is two, with the PUBREL between them, whose
write can fail; the second wait starts where the first one ended, in either stream. -/

/-- Read an acknowledgement and check it. -/
def awaitAcceptance : Command Unit := do
  let ack ← expectAck "publish"
  check ack "publish"

/-- Write the PUBREL, and wait for what acknowledges it. -/
def release (id : PacketId) : Command Unit := do
  send (.pubrel ⟨id, .success⟩)
  awaitAcceptance

/-- What a call does once its PUBLISH is written. -/
def handshake (qos : QoS) (id : PacketId) : Command Unit :=
  match qos with
  | .atMostOnce => return ()
  | .atLeastOnce => awaitAcceptance
  | .exactlyOnce => do
    awaitAcceptance
    release id

/-- Writing the PUBLISH reads nothing. -/
theorem published_hearing (m : Message) (w : Net) (xs : List Stimulus) :
    published m (hearing w xs) = hearing (published m w) xs := by
  unfold published
  split <;> rfl

theorem published_writes (m : Message) (w : Net) :
    (published m w).store.writes = w.store.writes + 1 := by
  unfold published
  split <;> rfl

/-- A call whose PUBLISH is written goes on with its handshake. -/
theorem publishOne_of_sent {m : Message} {w : Net}
    (h : w.store.fault w.store.writes = none) :
    publishOne m w = handshake m.qos (callId w) (published m w) := by
  obtain ⟨topic, payload, qos, retain, properties⟩ := m
  cases qos with
  | atMostOnce =>
    show (send _ >>= _ : Command Unit) w = _
    rw [bind_eq, send_eq, h]
    rfl
  | atLeastOnce =>
    show (send _ >>= _ : Command Unit) (allocated w) = _
    have hfault : (allocated w).store.fault (allocated w).store.writes = none := h
    rw [bind_eq, send_eq, hfault]
    rfl
  | exactlyOnce =>
    show (send _ >>= _ : Command Unit) (allocated w) = _
    have hfault : (allocated w).store.fault (allocated w).store.writes = none := h
    rw [bind_eq, send_eq, hfault]
    show (expectAck "publish" >>= _ : Command Unit) _ =
      ((awaitAcceptance >>= _ : Command Unit) _ : Outcome Stimulus Event Session Error Unit)
    rw [awaitAcceptance, bind_assoc]
    rfl

/-- A call whose PUBLISH is not written reads nothing. -/
theorem publishOne_of_unsent {m : Message} {w : Net} {e : MqttError}
    (h : w.store.fault w.store.writes = some e) :
    ∃ v, ∀ xs, publishOne m (hearing w xs) = .error (.failed (.mqtt e)) (hearing v xs) := by
  have hunsent : ∀ (v : Net) (p : Packet) (k : Unit → Command Unit),
      v.store.fault v.store.writes = some e → ∀ xs,
        (send p >>= k) (hearing v xs) = .error (.failed (.mqtt e)) (hearing (v.unwrote p) xs) := by
    intro v p k hv xs
    have hfault : (hearing v xs).store.fault (hearing v xs).store.writes = some e := hv
    rw [bind_eq, send_eq, hfault]
    rfl
  obtain ⟨topic, payload, qos, retain, properties⟩ := m
  cases qos with
  | atMostOnce => exact ⟨_, hunsent w _ _ h⟩
  | atLeastOnce =>
    exact ⟨_, fun xs ↦ hunsent (allocated w) (.publish (Message.toPublish
      ⟨topic, payload, .atLeastOnce, retain, properties⟩ (some (callId w)))) _ h xs⟩
  | exactlyOnce =>
    exact ⟨_, fun xs ↦ hunsent (allocated w) (.publish (Message.toPublish
      ⟨topic, payload, .exactlyOnce, retain, properties⟩ (some (callId w)))) _ h xs⟩

/-- A refusal ends a call. -/
theorem check_bind_eq (code : ReasonCode) (k : Unit → Command Unit) (w : Net) :
    (check code what >>= k) w =
      if code.isError then .error (.failed (.rejected what code)) w else k () w := by
  rw [bind_eq, check]
  cases code.isError <;> rfl

/-- A wait for an acknowledgement and its check, and what comes after them. -/
theorem awaitAcceptance_bind_eq (k : Unit → Command Unit) (w : Net) :
    (awaitAcceptance >>= k) w = match expectAck "publish" w with
      | .ok code v => if code.isError then .error (.failed (.rejected "publish" code)) v else k () v
      | .error e v => .error e v := by
  rw [awaitAcceptance, bind_assoc, bind_eq]
  simp only [check_bind_eq]
  cases expectAck "publish" w <;> rfl

theorem awaitAcceptance_eq (w : Net) :
    awaitAcceptance w = match expectAck "publish" w with
      | .ok code v =>
        if code.isError then .error (.failed (.rejected "publish" code)) v else .ok () v
      | .error e v => .error e v := by
  rw [← bind_pure awaitAcceptance, awaitAcceptance_bind_eq]
  rfl

/-- One wait for an acknowledgement, and its check. -/
theorem sameOutcome_awaitAcceptance_iff (heard : Inbound) (hw : At s sent w) (hv : At s sent v) :
    SameOutcome (awaitAcceptance (hearing w (original heard)))
      (awaitAcceptance (hearing v (whole heard))) ↔ Quiet heard := by
  have hwaits := compared "publish" heard hw hv
  rw [awaitAcceptance_eq, awaitAcceptance_eq]
  generalize expectAck "publish" (hearing w (original heard)) = o at hwaits ⊢
  generalize expectAck "publish" (hearing v (whole heard)) = o' at hwaits ⊢
  cases hwaits with
  | @acknowledged a _ _ _ hquiet _ hw' hv' =>
    refine iff_of_true ?_ hquiet
    simp only
    cases a.reasonCode.isError with
    | true => exact ⟨rfl, hw'.sends.trans hv'.sends.symm⟩
    | false => exact ⟨trivial, hw'.sends.trans hv'.sends.symm⟩
  | failed _ htold hw' hv' => exact (and_iff_left (hw'.sends.trans hv'.sends.symm)).trans htold
  | @overheard code _ _ _ hquiet =>
    refine iff_of_false (fun h ↦ ?_) hquiet
    simp only at h
    cases hcode : code.isError with
    | true =>
      rw [hcode] at h
      have htold : told (.failed (.rejected "publish" code)) = told _ := h.1
      cases htold
    | false =>
      rw [hcode] at h
      exact h.1

/-- Waiting sends nothing. -/
theorem At.awaitAcceptance (hw : At s sent w) (xs : List Stimulus) :
    At s sent (Outcome.world (Publish.awaitAcceptance (Publish.hearing w xs))) := by
  have hends := expectAck_endsLike "publish" (p := .connect) rfl xs hw
  rw [awaitAcceptance_eq]
  cases ho : expectAck "publish" (Publish.hearing w xs) with
  | ok code w' =>
    rw [ho] at hends
    simp only
    split <;> exact hends.1
  | error e w' =>
    rw [ho] at hends
    exact hends.1

/-- The second half of a call at QoS 2. -/
theorem sameOutcome_release_iff (heard : Inbound) (id : PacketId) (hw : At s sent w)
    (hv : At s sent v) :
    SameOutcome (release id (hearing w (original heard))) (release id (hearing v (whole heard))) ↔
      (s.fault s.writes = none → Quiet heard) := by
  have hfault : ∀ {v : Net}, At s sent v → ∀ xs, (hearing v xs).store.fault
      (hearing v xs).store.writes = s.fault s.writes := by
    rintro v ⟨rfl, -⟩ xs
    rfl
  rw [release, bind_eq, bind_eq, send_eq, send_eq, hfault hw, hfault hv]
  cases h : s.fault s.writes with
  | none =>
    refine Iff.trans ?_ (forall_prop_of_true rfl).symm
    exact sameOutcome_awaitAcceptance_iff heard (hw.pubrel ⟨id, .success⟩)
      (hv.pubrel ⟨id, .success⟩)
  | some e =>
    refine iff_of_true ⟨rfl, ?_⟩ fun hnone ↦ by cases hnone
    exact (hw.sends_unwrote ⟨id, .success⟩).trans (hv.sends_unwrote ⟨id, .success⟩).symm

/-- One PUBREL is sent, perhaps in vain. -/
theorem sends_release (id : PacketId) (hw : At s sent w) :
    sends (Outcome.world (release id w)).log = sent ++ [.pubrel ⟨id, .success⟩] := by
  rw [release, bind_eq, send_eq]
  cases w.store.fault w.store.writes with
  | none => exact ((hw.pubrel ⟨id, .success⟩).awaitAcceptance w.inbox).sends
  | some e => exact hw.sends_unwrote ⟨id, .success⟩

/-- The two waits of a call at QoS 2. -/
theorem sameOutcome_exactlyOnce_iff (heard : Inbound) (id : PacketId) (hw : At s sent w)
    (hv : At s sent v) :
    SameOutcome (handshake .exactlyOnce id (hearing w (original heard)))
      (handshake .exactlyOnce id (hearing v (whole heard))) ↔
        Quiet heard ∧ ∀ a rest, nextAck heard = some (a, rest) → a.reasonCode.isError = false →
          s.fault s.writes = none → Quiet rest := by
  have hwaits := compared "publish" heard hw hv
  rw [handshake, awaitAcceptance_bind_eq, awaitAcceptance_bind_eq]
  generalize expectAck "publish" (hearing w (original heard)) = o at hwaits ⊢
  generalize expectAck "publish" (hearing v (whole heard)) = o' at hwaits ⊢
  cases hwaits with
  | @acknowledged a rest w' v' hquiet hack hw' hv' =>
    simp only
    cases hcode : a.reasonCode.isError with
    | true =>
      refine iff_of_true ⟨rfl, hw'.sends.trans hv'.sends.symm⟩ ⟨hquiet, fun b _ hb hok ↦ ?_⟩
      cases hack.symm.trans hb
      exact absurd (hcode.symm.trans hok) Bool.noConfusion
    | false =>
      refine (sameOutcome_release_iff rest id hw' hv').trans
        ⟨fun h ↦ ⟨hquiet, fun b _ hb _ ↦ ?_⟩, fun h ↦ h.2 a rest hack hcode⟩
      cases hack.symm.trans hb
      exact h
  | failed hack htold hw' hv' =>
    have hvacuous : ∀ a rest, nextAck heard = some (a, rest) → a.reasonCode.isError = false →
        s.fault s.writes = none → Quiet rest := by
      intro a rest ha
      cases hack.symm.trans ha
    rw [and_iff_left hvacuous, ← htold]
    exact and_iff_left (hw'.sends.trans hv'.sends.symm)
  | @overheard code w' p v' hquiet hw' hv' =>
    refine iff_of_false (fun h ↦ ?_) fun h ↦ hquiet h.1
    simp only at h
    cases hcode : code.isError with
    | true =>
      rw [hcode] at h
      have htold : told (.failed (.rejected "publish" code)) = told _ := h.1
      cases htold
    | false =>
      rw [hcode] at h
      have hlength := congrArg List.length
        ((sends_release id hw').symm.trans (h.2.trans hv'.sends))
      rw [List.length_append] at hlength
      exact absurd hlength (Nat.succ_ne_self _)

/-- **When other traffic does not change the outcome of a publish.** Whatever unrelated packets are
inserted into the inbound stream of a call, its result and the PUBLISH and PUBREL packets it sends
are the same if and only if the call is undisturbed. -/
theorem sameOutcome_iff (m : Message) (w : Net) (heard : Inbound) :
    SameOutcome (publishOne m (hearing w (original heard)))
      (publishOne m (hearing w (whole heard))) ↔ Undisturbed m w heard := by
  have hfault : ∀ xs, (hearing w xs).store.fault (hearing w xs).store.writes =
      w.store.fault w.store.writes := fun _ ↦ rfl
  cases h : w.store.fault w.store.writes with
  | some e =>
    obtain ⟨v, hv⟩ := publishOne_of_unsent (m := m) h
    rw [hv, hv, Undisturbed, h]
    exact iff_of_true ⟨rfl, rfl⟩ fun hnone ↦ by cases hnone
  | none =>
    have hat : At (published m w).store (sends (published m w).log) (published m w) := ⟨rfl, rfl⟩
    rw [publishOne_of_sent ((hfault _).trans h), publishOne_of_sent ((hfault _).trans h),
      published_hearing, published_hearing, Undisturbed, forall_prop_of_true h]
    cases hq : m.qos with
    | atMostOnce => exact iff_of_true ⟨trivial, rfl⟩ trivial
    | atLeastOnce => exact sameOutcome_awaitAcceptance_iff heard hat hat
    | exactlyOnce =>
      have hwaits := sameOutcome_exactlyOnce_iff heard (callId w) hat hat
      rwa [published_fault, published_writes] at hwaits

/-- A QoS 1 call whose PUBACK comes after a message of a resumed session. -/
theorem not_sameOutcome_resumed :
    let heard : Inbound :=
      [.inr ⟨.publish ⟨false, .atMostOnce, false, "y", none, {}, [105]⟩, rfl⟩,
        .inl (.packet (.puback ⟨1, .success⟩))]
    let w := Net.connected 60 (fun _ ↦ none) []
    ¬SameOutcome (publishOne ⟨"x", [104], .atLeastOnce, false, {}⟩ (hearing w (original heard)))
      (publishOne ⟨"x", [104], .atLeastOnce, false, {}⟩ (hearing w (whole heard))) :=
  fun h ↦ h.1

end Publish

end PulsemqCli
