import PulsemqCli.Request

/-!
# What `request` makes of a refusal

`publishOne` fails with the Reason Code of the first acknowledgement that carries an error, and
sends no PUBREL after an error PUBREC. `RespectsRefusals` asks the same of a `request` run from its
PUBLISH on. The loop that waits for the replies looks at no Reason Code, so the property holds
precisely when the broker refuses nothing.

The comparison is with a sibling in the same program: `publish_one` checks the code of each
acknowledgement it reads, and a `request` publishes its message without that function. So the
property is the one that `publish_one` has. After an error the run fails with it, and a PUBREC that
is an error is answered with nothing.

Whether the property holds is decided by what the loop reads alone. `NoRefusal` says that none of it
is an acknowledgement with an error; with one, the run goes on as if it were none, which breaks the
property whatever comes next. A refusal that is never read breaks nothing.
-/

namespace PulsemqCli

namespace Request

open Reactive Protocol Client Receive Subscribe

/-- The Reason Code with which a packet acknowledges the request `id`. -/
def ackCode (id : PacketId) : Packet → Option ReasonCode
  | .puback a | .pubrec a | .pubcomp a => if a.packetId = id then some a.reasonCode else none
  | _ => none

/-- In the run that ended in `out` and added `log` after its PUBLISH `id`: an error
acknowledgement of the PUBLISH is the last packet read, and its Reason Code is the error the run
returns; and no PUBREL is written for an identifier after its error PUBREC. -/
structure RespectsRefusals (id : PacketId) (out : Outcome Stimulus Event Session Error Unit)
    (log : List Event) : Prop where
  rejected : ∀ pre p post code, log = pre ++ .received p :: post → ackCode id p = some code →
    code.isError → Quiet post ∧ ∃ what w, out = .error (.failed (.rejected what code)) w
  released : ∀ pre a post, log = pre ++ .received (.pubrec a) :: post → a.reasonCode.isError →
    ∀ b, .sent (.pubrel b) ∈ post → b.packetId ≠ a.packetId

/-- A packet that refuses nothing: no error PUBREC, and no error PUBACK or PUBCOMP of the
request. -/
def NoRefusal (id : PacketId) (p : Packet) : Prop :=
  (∀ a, p = .pubrec a → a.reasonCode.isError = false) ∧
    ∀ code, ackCode id p = some code → code.isError = false

variable {args : RequestArgs} {id : PacketId} {w w' : Net} {u d : List Event} {ps : List Packet}
  {out : Outcome Stimulus Event Session Error Unit}

/-- A run to which nothing is refused respects all refusals. -/
theorem respectsRefusals_of_noRefusal {M : Manner ℕ} (h : Concluded M ps w w' u d)
    (hno : ∀ p ∈ ps, NoRefusal id p) : RespectsRefusals id out (u ++ d) := by
  have hread : ∀ {pre p post}, u ++ d = pre ++ .received p :: post → NoRefusal id p := by
    intro pre p post heq
    obtain ⟨post', hu, -⟩ := h.disconnect.split_append heq
    refine hno p (h.reads.subset ?_)
    rw [hu]
    simp
  constructor
  · intro pre p post code heq hcode herr
    rw [(hread heq).2 code hcode] at herr
    cases herr
  · intro pre a post heq herr
    rw [(hread heq).1 a rfl] at herr
    cases herr

/-- The loop goes on after an acknowledgement. -/
theorem verdict_of_ackCode {showTopic : Bool} {count seen : ℕ} {p : Packet} {code : ReasonCode}
    (h : ackCode id p = some code) : (manner showTopic count).verdict seen p = .again seen := by
  cases p with
  | puback a | pubrec a | pubcomp a => rfl
  | _ => cases h

theorem clientEnding_ne_rejected (what : String) (code : ReasonCode) (x : Stimulus)
    (rest : List Stimulus) :
    clientEnding x rest ≠ some (.error (.failed (.rejected what code))) := by
  cases x <;> simp [clientEnding]

/-- An acknowledgement is never the last packet of a loop that ends in a rejection. -/
theorem not_last_of_rejected {showTopic : Bool} {count : ℕ} {xs : List Stimulus} {p : Packet}
    {init : List Packet} {what : String} {code code' : ReasonCode}
    (hfinish : repliesFinish showTopic count xs = .error (.failed (.rejected what code)))
    (hreads : repliesRead showTopic count xs = init ++ [p]) : ackCode id p ≠ some code' := by
  intro hack
  have hcount : 0 < count := by
    by_contra h
    simp [repliesRead, h] at hreads
  rw [repliesFinish, if_pos hcount] at hfinish
  rw [repliesRead, if_pos hcount] at hreads
  obtain ⟨init', q, seen, hlast, hq⟩ :=
    exists_last_of_finish (by simp) (clientEnding_ne_rejected what code) hfinish
  obtain rfl := List.singleton_inj.1 (List.append_inj' (hreads.symm.trans hlast) rfl).2
  rw [verdict_of_ackCode hack] at hq
  rcases hq with ⟨hq, -⟩ | ⟨e, hq, -⟩ <;> cases hq

/-- A run on a connection that accepts writes respects a refusal only if there is none. -/
theorem noRefusal_of_respectsRefusals {showTopic : Bool} {count : ℕ} {xs : List Stimulus}
    (hu : Transcript (manner showTopic count) u)
    (hreads : receivedPackets u = repliesRead showTopic count xs)
    (hout : ∀ what code w', out = .error (.failed (.rejected what code)) w' →
      repliesFinish showTopic count xs = .error (.failed (.rejected what code)))
    (h : RespectsRefusals id out (u ++ d)) :
    ∀ p ∈ repliesRead showTopic count xs, NoRefusal id p := by
  intro p hp
  rw [← hreads] at hp
  obtain ⟨ps, qs, hps⟩ := List.append_of_mem hp
  obtain ⟨pre, post, hsplit, -⟩ := exists_split_of_receivedPackets hps
  have hsplit' : u ++ d = pre ++ .received p :: (post ++ d) := by simp [hsplit]
  constructor
  · rintro a rfl
    by_contra herr
    have hmem := response_subset post (hu.reply_mem_response hsplit
      (show _ = some (.pubrel ⟨a.packetId, .success⟩) from rfl))
    exact h.released pre a (post ++ d) hsplit' (by simpa using herr) ⟨a.packetId, .success⟩
      (List.mem_append_left d hmem) rfl
  · intro code hcode
    by_contra herr
    obtain ⟨hquiet, what, w', hw'⟩ :=
      h.rejected pre p (post ++ d) code hsplit' hcode (by simpa using herr)
    have hpost : Quiet post := fun e he ↦ hquiet e (List.mem_append_left d he)
    have hlast : repliesRead showTopic count xs = receivedPackets pre ++ [p] := by
      rw [← hreads, hsplit]
      simp [hpost.receivedPackets_eq_nil]
    exact not_last_of_rejected (hout what code w' hw') hlast hcode

/-- **Refusals, exactly.** From its PUBLISH on, a `request` run respects the broker's refusals if
none of the packets it reads refuses anything, and, where its writes succeed, only if. -/
theorem respectsRefusals_iff {v : Net} (h : publishRequest args w = .ok (some id) v) :
    ((∀ p ∈ repliesRead args.showTopic args.count v.inbox, NoRefusal id p) →
      RespectsRefusals id (run args w)
        ((Outcome.world (run args w)).log.drop v.log.length)) ∧
    (v.AcceptsWrites →
      RespectsRefusals id (run args w)
        ((Outcome.world (run args w)).log.drop v.log.length) →
      ∀ p ∈ repliesRead args.showTopic args.count v.inbox, NoRefusal id p) := by
  have hrun : run args w = answer args v := by
    simp only [run, bind, EStateM.bind, h]
  rw [hrun]
  have hspec := wp_answer args v
  rcases hout : answer args v with ⟨⟨⟩, v'⟩ | ⟨e, v'⟩
  · obtain ⟨hfinish, u, hu, hreads, hc⟩ := hspec.of_ok hout
    rw [Outcome.world_ok, hc.log, List.drop_left]
    refine ⟨respectsRefusals_of_noRefusal hc, fun _ hr ↦ ?_⟩
    exact noRefusal_of_respectsRefusals hu hreads (fun _ _ _ h ↦ by cases h) hr
  · rcases hspec.of_error hout with ⟨hfinish, u, hu, hreads, hc⟩ | ⟨hv, u, d, hc⟩
    · rw [Outcome.world_error, hc.log, List.drop_left]
      refine ⟨respectsRefusals_of_noRefusal hc, fun _ hr ↦ ?_⟩
      refine noRefusal_of_respectsRefusals hu hreads (fun what code w' h ↦ ?_) hr
      cases h
      exact hfinish
    · rw [Outcome.world_error, hc.log, List.drop_left]
      exact ⟨respectsRefusals_of_noRefusal hc, fun hw ↦ absurd hw hv⟩

/-- `request -t q --reply-topic r -q 2` over v5. -/
def lightRequest : RequestArgs where
  version := .v5
  topic := "q"
  replyTopic := "r"
  message := none
  qos := .exactlyOnce
  showTopic := false
  count := 1

/-- A connection on which the broker grants the subscription and then sends these packets. -/
def granting (packets : List Packet) : Net :=
  Net.connected 60 (fun _ ↦ none) (.packet (.suback ⟨1, [.success]⟩) :: packets.map .packet)

/-- The events after the request's PUBLISH. -/
def sincePublish (packets : List Packet) : List Event :=
  (Outcome.world (run lightRequest (granting packets))).log.drop
    (Outcome.world (publishRequest lightRequest (granting packets))).log.length

/-- The handshake of an accepted request. -/
def accepted : List Packet :=
  [.pubrec ⟨2, .success⟩, .pubcomp ⟨2, .success⟩]

/-- An accepted request is a run without refusals. -/
theorem respectsRefusals_iff_accepted :
    RespectsRefusals 2 (run lightRequest (granting accepted)) (sincePublish accepted) := by
  have hv : publishRequest lightRequest (granting accepted) =
      .ok (some 2) (Outcome.world (publishRequest lightRequest (granting accepted))) := rfl
  refine (respectsRefusals_iff hv).1 fun p hp ↦ ?_
  replace hp : p ∈ accepted := hp
  simp only [accepted, List.mem_cons, List.not_mem_nil, or_false] at hp
  rcases hp with rfl | rfl <;> simp [NoRefusal, ackCode]

/-- A PUBREC that refuses the request is answered with PUBREL, and the run waits on. -/
theorem not_respectsRefusals_refused :
    ¬RespectsRefusals 2 (run lightRequest (granting [.pubrec ⟨2, .notAuthorized⟩]))
      (sincePublish [.pubrec ⟨2, .notAuthorized⟩]) := by
  intro h
  exact h.released [] ⟨2, .notAuthorized⟩ [.sent (.pubrel ⟨2, .success⟩)] rfl rfl
    ⟨2, .success⟩ List.mem_cons_self rfl

end Request

end PulsemqCli
