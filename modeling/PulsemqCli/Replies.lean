import PulsemqCli.Request
import PulsemqCli.Subscribe.Handled
import PulsemqCli.Bench.Subscriber

/-!
# The replies of the three receive loops, and their limits

`sub`, `request` and the benchmark's subscriber each have a receive loop of their own. They reply
alike: what a loop has written is what the packets it has processed are due, in order. The loops
of `sub` and `request` end at a limit; they differ in where they check it, and neither reads on
once it is reached.

Reading a packet and replying to it are two steps, and the reply can fail. So the packets a loop has
processed are counted from its log in two ways that differ by at most the last one:
`receivedPackets` are those it read, and `processed` leaves out the one whose reply could not be
written. The replies are exact for `processed`, in every log that a loop can leave.

The treatment of a packet is a `Manner`, and what the three loops have in common is said of manners.
`RepliesAlike` says that a manner replies as `replyTo` does, except to a PUBREC, where the loops
legitimately differ. `Limited` says that it prints each message it processes and is done at its
limit. Both are closed under what a loop does after it is done: the DISCONNECT, which is its
`Farewell`.

`within` and `beyond` describe a limit on the side of the input: the messages offered to a loop up
to the limit, and the stimuli after the last of them. `finish_of_le` then says that enough messages
end the loop, and `messages_reads` that it reads no other ones.
-/

namespace PulsemqCli

namespace Replies

open Reactive Protocol Client Receive

/-- The acknowledgements that PUBLISH and PUBREL are answered with. -/
def IsReply : Packet → Bool
  | .puback _ | .pubrec _ | .pubcomp _ => true
  | _ => false

/-- The replies written in a log. -/
def written (log : List Event) : List Packet :=
  log.filterMap fun
    | .sent p => if IsReply p then some p else none
    | _ => none

/-- The packets a log has processed: those it read, except for one whose reply could not be
written. -/
def processed (log : List Event) : List Packet :=
  match log.getLast? with
  | some (.unsent r) => if IsReply r then (receivedPackets log).dropLast else receivedPackets log
  | _ => receivedPackets log

/-- The packets among stimuli. -/
def inbound (xs : List Stimulus) : List Packet :=
  xs.filterMap fun
    | .packet p => some p
    | _ => none

/-- Replies are counted event by event. -/
theorem written_append (log log' : List Event) :
    written (log ++ log') = written log ++ written log' :=
  List.filterMap_append

/-- Delivering a message writes nothing. -/
theorem written_of_delivers {es : List Event} (h : ∀ e ∈ es, Delivers e) : written es = [] := by
  refine List.filterMap_eq_nil_iff.2 fun e he ↦ ?_
  have hdelivers := h e he
  rcases e with p | p | p | ⟨p, b⟩ | - | n | n
  all_goals first | rfl | exact hdelivers.elim

/-- After an event that is neither a read nor a failed reply, everything read is processed. -/
theorem processed_append {log : List Event} {e : Event} (h : ∀ r, e = .unsent r → IsReply r = false)
    (hquiet : Quiet [e]) : processed (log ++ [e]) = receivedPackets log := by
  have hreceived : receivedPackets (log ++ [e]) = receivedPackets log := by
    rw [receivedPackets_append, hquiet.receivedPackets_eq_nil, List.append_nil]
  rw [processed, List.getLast?_concat]
  split
  next r hr =>
    obtain rfl := Option.some.inj hr
    rw [h r rfl, hreceived]
    rfl
  next => exact hreceived

/-- A log without a failed write has processed what it read. -/
theorem processed_of_notMem {log : List Event} (h : ∀ r, .unsent r ∉ log) :
    processed log = receivedPackets log := by
  rw [processed]
  split
  next r hr => exact absurd (List.mem_of_getLast? hr) (h r)
  next => rfl

/-- What is processed was read, in the same order. -/
theorem processed_isPrefix (log : List Event) : processed log <+: receivedPackets log := by
  rw [processed]
  split
  next r _ =>
    split
    · exact List.dropLast_prefix _
    · exact List.prefix_refl _
  next => exact List.prefix_refl _

/-! ### What a loop does about the packets it processes

Both of what is written and what is printed are picked from the log event by event. So one lemma
counts either, for any function that picks from events: a transcript is a list of exchanges, and
picks add up. -/

variable {σ β : Type} {M : Manner σ}

/-- What `f` picks from a transcript is what it picks from its exchanges, packet by packet. -/
theorem filterMap_transcript {f : Event → Option β} {g : Packet → List β} {t : List Event}
    (hping : f (.sent .pingreq) = none) (hexchange : ∀ p es, Exchange M p es → es.filterMap f = g p)
    (h : Transcript M t) : t.filterMap f = (receivedPackets t).flatMap g := by
  induction h with
  | nil => rfl
  | ping hlog ih =>
    rw [List.filterMap_append, List.filterMap_cons_none hping, ih, receivedPackets_append,
      List.flatMap_append]
    rfl
  | exchange p hlog hes ih =>
    rw [List.filterMap_append, ih, hexchange p _ hes, receivedPackets_append, hes.receivedPackets,
      List.flatMap_append, List.flatMap_singleton]

/-- However a loop ends, what `f` picks from its log is what it picks packet by packet from those
it has processed. -/
theorem filterMap_produced {f : Event → Option β} {g : Packet → List β} {u : List Event}
    (hping : f (.sent .pingreq) = none) (hunsent : ∀ r, f (.unsent r) = none)
    (hexchange : ∀ p es, Exchange M p es → es.filterMap f = g p)
    (hcut : ∀ p b, M.before p b → (.received p :: b : List Event).filterMap f = [])
    (hother : ∀ p r, M.reply p = some r → IsReply r = false → g p = []) (h : Produced M u) :
    u.filterMap f = (processed u).flatMap g := by
  rcases h with h | ⟨t, c, ht, hc, rfl⟩
  · rw [processed_of_notMem h.unsent_notMem]
    exact filterMap_transcript hping hexchange h
  · have htranscript := filterMap_transcript hping hexchange ht
    rcases hc with - | @⟨p, r, b, hb, hr⟩
    · have hnot : ∀ r, Event.unsent .pingreq = .unsent r → IsReply r = false :=
        fun r h ↦ Event.unsent.inj h ▸ rfl
      rw [processed_append hnot (by simp [Quiet]), List.filterMap_append, htranscript,
        List.filterMap_cons_none (hunsent _)]
      exact List.append_nil _
    · have hpick : (t ++ (Event.received p :: b ++ [Event.unsent r])).filterMap f =
          (receivedPackets t).flatMap g := by
        rw [List.filterMap_append, List.filterMap_append, hcut p b hb,
          List.filterMap_cons_none (hunsent r), htranscript]
        exact List.append_nil _
      have hread : receivedPackets (t ++ (Event.received p :: b ++ [Event.unsent r])) =
          receivedPackets t ++ [p] := by
        rw [receivedPackets_append, receivedPackets_cut hb]
      have hlast : (t ++ (Event.received p :: b ++ [Event.unsent r])).getLast? =
          some (Event.unsent r) := by
        rw [← List.append_assoc, List.getLast?_concat]
      rw [hpick, processed, hlast, hread]
      -- A PUBREC that `request` could not answer counts as processed: it is due no acknowledgement.
      rcases hreply : IsReply r with - | -
      · simp only [hreply, Bool.false_eq_true, if_false, List.flatMap_append,
          List.flatMap_singleton, hother p r hr hreply, List.append_nil]
      · simp only [hreply, if_true, List.dropLast_concat]

/-! ### The replies

PUBREC apart, the three loops owe the same for each packet. `sub` and the benchmark's subscriber owe
nothing for a PUBREC, while `request`, which has published something itself, answers it. -/

/-- A loop replies as `sub` does, except that it may answer a PUBREC with a PUBREL. -/
def RepliesAlike (M : Manner σ) : Prop :=
  ∀ p, M.reply p = Subscribe.replyTo p ∨
    ∃ ack, p = .pubrec ack ∧ M.reply p = some (.pubrel ⟨ack.packetId, .success⟩)

/-- What a loop owes for a packet is a reply. -/
theorem isReply_of_replyTo {p r : Packet} (h : Subscribe.replyTo p = some r) :
    IsReply r = true := by
  rcases p with _ | _ | m | _ | _ | rel
  case publish =>
    simp only [Subscribe.replyTo, Subscribe.ackFor] at h
    split at h
    next => simp at h
    next =>
      split at h
      next => simp at h
      next => exact Option.some.inj h ▸ rfl
      next => exact Option.some.inj h ▸ rfl
  case pubrel => exact Option.some.inj h ▸ rfl
  all_goals simp [Subscribe.replyTo] at h

theorem filter_isReply_some {r : Packet} (h : IsReply r = true) :
    (some r).filter IsReply = some r :=
  if_pos h

/-- A reply that is written counts as one. -/
theorem written_reply (r : Option Packet) :
    written (r.toList.map .sent) = (r.filter IsReply).toList := by
  rcases r with - | r
  · rfl
  · rcases h : IsReply r with - | -
    · have hnone : (some r).filter IsReply = none := if_neg (by rw [h]; exact Bool.false_ne_true)
      rw [hnone]
      simp [written, h]
    · rw [filter_isReply_some h]
      simp [written, h]

/-- Up to its answer to a PUBREC, a manner that replies alike does what `sub` does. -/
theorem RepliesAlike.filter (h : RepliesAlike M) (p : Packet) :
    (M.reply p).filter IsReply = Subscribe.replyTo p := by
  rcases h p with hreply | ⟨ack, rfl, hreply⟩
  · rw [hreply]
    rcases hr : Subscribe.replyTo p with - | r
    · rfl
    · exact filter_isReply_some (isReply_of_replyTo hr)
  · rw [hreply]
    rfl

/-- Only a PUBREC is answered with anything else. -/
theorem RepliesAlike.eq_pubrec (h : RepliesAlike M) {p r : Packet} (hr : M.reply p = some r)
    (hreply : IsReply r = false) : ∃ ack, p = .pubrec ack := by
  rcases h p with hdue | ⟨ack, hp, -⟩
  · have hdueReply := isReply_of_replyTo (hdue.symm.trans hr)
    exact Bool.noConfusion (hdueReply.symm.trans hreply)
  · exact ⟨ack, hp⟩

/-- **However a loop ends, it has written the replies that are due to what it has processed.** -/
theorem written_produced {u : List Event} (halike : RepliesAlike M) (h : Produced M u) :
    written u = (processed u).filterMap Subscribe.replyTo := by
  have hflatMap : (processed u).filterMap Subscribe.replyTo =
      (processed u).flatMap fun p ↦ (Subscribe.replyTo p).toList := by
    rw [List.filterMap_eq_flatMap_toList]
  rw [hflatMap]
  refine filterMap_produced rfl (fun _ ↦ rfl) ?_ ?_ ?_ h
  · rintro p es ⟨b, a, hb, ha, rfl⟩
    have hread : written (.received p :: b) = written b := rfl
    show written _ = _
    rw [written_append, written_append, hread, written_of_delivers (M.before_delivers p b hb),
      written_of_delivers (M.after_delivers p a ha), written_reply, halike.filter p,
      List.nil_append, List.append_nil]
  · intro p b hb
    have hread : written (.received p :: b) = written b := rfl
    exact hread.trans (written_of_delivers (M.before_delivers p b hb))
  · intro p r hr hreply
    obtain ⟨ack, rfl⟩ := halike.eq_pubrec hr hreply
    rfl

/-! ### What a loop with a limit reads

Here the stimuli are compared with the limit. The induction is over the stimuli, with the number of
messages seen so far; a stimulus is a message for which there is room, or it is silent, or it ends
the loop. -/

/-- A stimulus that ends a subscription: a DISCONNECT, the end of the stream, or a failed read. -/
def closes : Stimulus → Bool
  | .packet (.disconnect _) | .eof | .readError _ => true
  | _ => false

/-- The messages before the first DISCONNECT or end of stream. -/
def offered (xs : List Stimulus) : List Protocol.Publish :=
  Subscribe.messages (inbound (xs.takeWhile fun x ↦ !closes x))

/-- The messages up to a limit. -/
def within (limit : Option ℕ) (ms : List Protocol.Publish) : List Protocol.Publish :=
  limit.elim ms ms.take

/-- The stimuli after the n-th PUBLISH. -/
def beyond : ℕ → List Stimulus → List Stimulus
  | 0, xs => xs
  | _, [] => []
  | n + 1, .packet (.publish _) :: rest => beyond n rest
  | n + 1, _ :: rest => beyond (n + 1) rest

/-- The messages that were written to stdout. -/
def printed (log : List Event) : List Protocol.Publish :=
  log.filterMap fun
    | .printed m _ => some m
    | _ => none

/-- A loop that replies, prints, and is done at a limit. -/
structure Limited (M : Manner ℕ) (showTopic : Bool) (limit : Option ℕ) : Prop where
  replies : RepliesAlike M
  before : ∀ p es, M.before p es → es = []
  after : ∀ p es, M.after p es → es = Subscribe.delivery showTopic p
  ending : M.ending = clientEnding
  publish : ∀ seen m, M.verdict seen (.publish m) =
    if limit.any (· ≤ seen + 1) then .done else .again (seen + 1)
  disconnect : ∀ seen code, ∃ e, M.verdict seen (.disconnect code) = .refused e
  other : ∀ seen p, closes (.packet p) = false → (∀ m, p ≠ .publish m) →
    M.verdict seen p = .again seen

/-- The loop of `sub` checks its limit after it printed a message. -/
theorem limited_sub (showTopic : Bool) (limit : Option ℕ) :
    Limited (Subscribe.manner showTopic limit) showTopic limit where
  replies _ := Or.inl rfl
  before _ _ h := h
  after _ _ h := h
  ending := rfl
  publish _ _ := rfl
  disconnect _ _ := ⟨_, rfl⟩
  other seen p hclose hp := by
    rcases p with _ | _ | m | _ | _ | _ | _ | _ | _ | _ | _ | _ | _ | code | _
    case publish => exact absurd rfl (hp m)
    case disconnect => exact Bool.noConfusion hclose
    all_goals rfl

/-- The loop of `request` checks its count at its top, and so before it reads on. -/
theorem limited_request (showTopic : Bool) (count : ℕ) :
    Limited (Request.manner showTopic count) showTopic (some count) where
  replies p := by
    by_cases h : ∃ ack, p = .pubrec ack
    · obtain ⟨ack, rfl⟩ := h
      exact Or.inr ⟨ack, rfl, rfl⟩
    · exact Or.inl (Request.replyTo_of_ne_pubrec fun ack hp ↦ h ⟨ack, hp⟩)
  before _ _ h := h
  after _ _ h := h
  ending := rfl
  publish seen m := by
    show (if seen + 1 < count then Verdict.again (seen + 1) else Verdict.done) = _
    simp only [Option.any_some, decide_eq_true_eq]
    split
    next h => rw [if_neg (Nat.not_le.2 h)]
    next h => rw [if_pos (Nat.not_lt.1 h)]
  disconnect _ _ := ⟨_, rfl⟩
  other seen p hclose hp := by
    rcases p with _ | _ | m | _ | _ | _ | _ | _ | _ | _ | _ | _ | _ | code | _
    case publish => exact absurd rfl (hp m)
    case disconnect => exact Bool.noConfusion hclose
    all_goals rfl

namespace Limited

variable {N : Manner ℕ} {showTopic : Bool} {limit : Option ℕ} {seen : ℕ} {x : Stimulus}
  {rest : List Stimulus}

/-- At its last message a loop is done. -/
theorem publish_done (h : Limited N showTopic (some (seen + 1))) (m : Protocol.Publish)
    (rest : List Stimulus) :
    reads N seen (.packet (.publish m) :: rest) = [.publish m] ∧
      finish N seen (.packet (.publish m) :: rest) = .ok () ∧
      remaining N seen (.packet (.publish m) :: rest) = rest := by
  have hverdict : N.verdict seen (.publish m) = .done := by
    rw [h.publish, if_pos (by simp)]
  simp only [reads, finish, remaining, hverdict, and_self]

/-- Before it, it goes on. -/
theorem publish_again (h : Limited N showTopic limit) (hroom : limit.all (seen + 1 < ·))
    (m : Protocol.Publish) (rest : List Stimulus) :
    reads N seen (.packet (.publish m) :: rest) = .publish m :: reads N (seen + 1) rest ∧
      finish N seen (.packet (.publish m) :: rest) = finish N (seen + 1) rest ∧
      remaining N seen (.packet (.publish m) :: rest) = remaining N (seen + 1) rest := by
  have hverdict : N.verdict seen (.publish m) = .again (seen + 1) := by
    rw [h.publish, if_neg]
    rcases limit with - | n
    · simp
    · simpa using hroom
  simp only [reads, finish, remaining, hverdict, and_self]

/-- A stimulus that is not a message is passed over, or ends the loop. -/
theorem silent (h : Limited N showTopic limit) (hx : ∀ m, x ≠ .packet (.publish m)) (seen : ℕ)
    (rest : List Stimulus) :
    reads N seen (x :: rest) = inbound [x] ++ (if closes x then [] else reads N seen rest) ∧
      (closes x = false → finish N seen (x :: rest) = finish N seen rest ∧
        remaining N seen (x :: rest) = remaining N seen rest) := by
  by_cases hpacket : ∃ p, x = .packet p
  · obtain ⟨p, rfl⟩ := hpacket
    rcases hclose : closes (.packet p) with - | -
    · have hverdict := h.other seen p hclose fun m hp ↦ hx m (congrArg Stimulus.packet hp)
      simp only [reads, finish, remaining, hverdict]
      exact ⟨rfl, fun _ ↦ ⟨trivial, trivial⟩⟩
    · obtain ⟨code, rfl⟩ : ∃ code, p = .disconnect code := by
        rcases p with _ | _ | _ | _ | _ | _ | _ | _ | _ | _ | _ | _ | _ | code | _
        case disconnect => exact ⟨code, rfl⟩
        all_goals exact Bool.noConfusion hclose
      obtain ⟨e, hverdict⟩ := h.disconnect seen code
      simp only [reads, hverdict]
      exact ⟨rfl, fun h ↦ Bool.noConfusion h⟩
  · replace hpacket : ∀ p, x ≠ .packet p := fun p hp ↦ hpacket ⟨p, hp⟩
    rw [reads_silent hpacket, finish_silent hpacket, remaining_silent hpacket, h.ending]
    rcases x with p | - | e | - | -
    · exact absurd rfl (hpacket p)
    · exact ⟨rfl, fun h ↦ Bool.noConfusion h⟩
    · exact ⟨rfl, fun h ↦ Bool.noConfusion h⟩
    · exact ⟨rfl, fun _ ↦ ⟨rfl, rfl⟩⟩
    · exact ⟨rfl, fun _ ↦ ⟨rfl, rfl⟩⟩

/-- A stimulus that is not a message holds none. -/
theorem messages_inbound (hx : ∀ m, x ≠ .packet (.publish m)) :
    Subscribe.messages (inbound [x]) = [] := by
  rcases x with p | - | e | - | -
  · rcases p with _ | _ | m
    case publish => exact absurd rfl (hx m)
    all_goals rfl
  all_goals rfl

/-- A message is offered. -/
theorem offered_publish (m : Protocol.Publish) (rest : List Stimulus) :
    offered (.packet (.publish m) :: rest) = m :: offered rest :=
  rfl

/-- A stimulus that is no message offers none, and where it ends the stream nothing more is offered.
-/
theorem offered_silent (hx : ∀ m, x ≠ .packet (.publish m)) (rest : List Stimulus) :
    offered (x :: rest) = if closes x then [] else offered rest := by
  rcases hclose : closes x with - | -
  · have htake : (x :: rest).takeWhile (fun x ↦ !closes x) =
        [x] ++ rest.takeWhile fun x ↦ !closes x :=
      List.takeWhile_cons_of_pos (by rw [hclose]; rfl)
    show Subscribe.messages (inbound (List.takeWhile _ _)) = _
    rw [htake, inbound, List.filterMap_append, Subscribe.messages, List.filterMap_append]
    exact congrArg (· ++ offered rest) (messages_inbound hx)
  · have htake : (x :: rest).takeWhile (fun x ↦ !closes x) = [] :=
      List.takeWhile_cons_of_neg (by simp [hclose])
    show Subscribe.messages (inbound (List.takeWhile _ _)) = _
    rw [htake]
    rfl

/-- A stimulus that is no message does not count towards the limit. -/
theorem beyond_silent (hx : ∀ m, x ≠ .packet (.publish m)) (n : ℕ) (rest : List Stimulus) :
    beyond (n + 1) (x :: rest) = beyond (n + 1) rest := by
  rw [beyond]
  exact hx

/-- Where there is room for a message, it is the last one or there is room for another. -/
theorem room_cases (hroom : limit.all (seen < ·)) :
    limit = some (seen + 1) ∨ limit.all (seen + 1 < ·) := by
  rcases limit with - | n
  · exact Or.inr rfl
  · simp only [Option.all_some, decide_eq_true_eq] at hroom ⊢
    rcases Nat.eq_or_lt_of_le (Nat.succ_le_of_lt hroom) with hlast | hmore
    · exact Or.inl (congrArg some hlast.symm)
    · exact Or.inr hmore

/-- The first message is within a limit that has room for it. -/
theorem within_cons (hroom : limit.all (seen < ·)) (m : Protocol.Publish)
    (ms : List Protocol.Publish) :
    within (limit.map (· - seen)) (m :: ms) = m :: within (limit.map (· - (seen + 1))) ms := by
  rcases limit with - | n
  · rfl
  · simp only [Option.all_some, decide_eq_true_eq] at hroom
    have hsub : n - seen = n - (seen + 1) + 1 := by omega
    show (m :: ms).take (n - seen) = m :: ms.take (n - (seen + 1))
    rw [hsub, List.take_succ_cons]

/-- **The messages a loop reads off its stimuli are the first ones offered, up to the limit.** -/
theorem messages_reads (h : Limited N showTopic limit) (xs : List Stimulus)
    (hroom : limit.all (seen < ·)) :
    Subscribe.messages (reads N seen xs) = within (limit.map (· - seen)) (offered xs) := by
  induction xs generalizing seen with
  | nil => rcases limit with - | n <;> simp [reads, within, offered, inbound, Subscribe.messages]
  | cons x rest ih =>
    by_cases hx : ∃ m, x = .packet (.publish m)
    · obtain ⟨m, rfl⟩ := hx
      rw [offered_publish, within_cons hroom]
      rcases room_cases hroom with rfl | hmore
      · rw [(h.publish_done m rest).1]
        simp [within, Subscribe.messages]
      · rw [(h.publish_again hmore m rest).1, ← ih hmore]
        rfl
    · replace hx : ∀ m, x ≠ .packet (.publish m) := fun m hm ↦ hx ⟨m, hm⟩
      rw [(h.silent hx seen rest).1, offered_silent hx, Subscribe.messages, List.filterMap_append]
      refine (congrArg (· ++ _) (messages_inbound hx)).trans ?_
      split
      · rcases limit with - | n
        · rfl
        · exact List.take_nil.symm
      · exact ih hroom

/-- **Whatever a loop reads, it had room for a message when it read it.** -/
theorem room_of_reads (h : Limited N showTopic limit) {xs : List Stimulus}
    (hroom : limit.all (seen < ·)) {pre post : List Packet} {p : Packet}
    (hreads : reads N seen xs = pre ++ p :: post) :
    limit.all (seen + (Subscribe.messages pre).length < ·) := by
  induction xs generalizing seen pre with
  | nil => exact absurd hreads (by simp [reads])
  | cons x rest ih =>
    rcases pre with - | ⟨q, pre⟩
    · exact hroom
    · by_cases hx : ∃ m, x = .packet (.publish m)
      · obtain ⟨m, rfl⟩ := hx
        rcases room_cases hroom with rfl | hmore
        · rw [(h.publish_done m rest).1] at hreads
          simp at hreads
        · rw [(h.publish_again hmore m rest).1] at hreads
          obtain ⟨rfl, hrest⟩ := List.cons_eq_cons.1 hreads
          have hlater := ih hmore hrest
          have hcount : seen + (Subscribe.messages (Packet.publish m :: pre)).length =
              seen + 1 + (Subscribe.messages pre).length := by
            show seen + ((Subscribe.messages pre).length + 1) = _
            omega
          rw [hcount]
          exact hlater
      · replace hx : ∀ m, x ≠ .packet (.publish m) := fun m hm ↦ hx ⟨m, hm⟩
        rw [(h.silent hx seen rest).1] at hreads
        -- The head is `x` itself, which is no message, or comes from the rest.
        obtain ⟨pre', hrest, hmessages⟩ : ∃ pre',
            (if closes x then [] else reads N seen rest) = pre' ++ p :: post ∧
              Subscribe.messages (q :: pre) = Subscribe.messages pre' := by
          rcases x with x | - | e | - | -
          · obtain ⟨rfl, hrest⟩ := List.cons_eq_cons.1 hreads
            have happend : Subscribe.messages ([x] ++ pre) =
                Subscribe.messages [x] ++ Subscribe.messages pre := List.filterMap_append
            refine ⟨pre, hrest, happend.trans ?_⟩
            exact congrArg (· ++ Subscribe.messages pre) (messages_inbound hx)
          all_goals exact ⟨q :: pre, hreads, rfl⟩
        rw [hmessages]
        split at hrest
        · exact absurd hrest (by simp)
        · exact ih hroom hrest

/-- **A loop that is offered its last message is done with it.** -/
theorem finish_of_le (h : Limited N showTopic limit) {xs : List Stimulus} {L : ℕ}
    (hlimit : limit = some (seen + L + 1)) (hoffered : L + 1 ≤ (offered xs).length) :
    finish N seen xs = .ok () ∧ remaining N seen xs = beyond (L + 1) xs := by
  induction xs generalizing seen L with
  | nil => exact absurd hoffered (Nat.not_succ_le_zero L)
  | cons x rest ih =>
    by_cases hx : ∃ m, x = .packet (.publish m)
    · obtain ⟨m, rfl⟩ := hx
      rw [offered_publish, List.length_cons] at hoffered
      rcases L with - | L
      · subst hlimit
        exact ⟨(h.publish_done m rest).2.1, (h.publish_done m rest).2.2.trans (by simp [beyond])⟩
      · have hmore : limit.all (seen + 1 < ·) := by
          rw [hlimit]
          simp
        obtain ⟨-, hfinish, hremaining⟩ := h.publish_again hmore m rest
        rw [hfinish, hremaining]
        exact ih (hlimit.trans (congrArg some (by omega))) (by omega)
    · replace hx : ∀ m, x ≠ .packet (.publish m) := fun m hm ↦ hx ⟨m, hm⟩
      rw [offered_silent hx] at hoffered
      rcases hclose : closes x with - | -
      · rw [if_neg (by rw [hclose]; exact Bool.false_ne_true)] at hoffered
        obtain ⟨hfinish, hremaining⟩ := (h.silent hx seen rest).2 hclose
        rw [hfinish, hremaining, beyond_silent hx]
        exact ih hlimit hoffered
      · rw [if_pos hclose] at hoffered
        exact absurd hoffered (Nat.not_succ_le_zero L)

end Limited

/-! ### What a loop and its DISCONNECT leave behind

After its loop a command has a DISCONNECT to write, which may fail like any other write. `Farewell`
has the ways in which it can come out, so that the statements about logs need no more than a prefix
and an end. -/

/-- A write other than the closing DISCONNECT failed. -/
def Broke (log : List Event) : Prop :=
  ∃ r, r ≠ .disconnect .success ∧ .unsent r ∈ log

/-- What is left of an exchange is a write that failed, and not the DISCONNECT's. -/
theorem broke_of_cut (halike : RepliesAlike M) {c : List Event} (h : Cut M c) : Broke c := by
  rcases h with - | @⟨p, r, b, -, hr⟩
  · exact ⟨.pingreq, Packet.noConfusion, List.mem_singleton_self _⟩
  · refine ⟨r, ?_, by simp⟩
    rintro rfl
    rcases halike p with hreply | ⟨ack, -, hreply⟩
    · exact Bool.noConfusion (isReply_of_replyTo (hreply.symm.trans hr))
    · exact Packet.noConfusion (Option.some.inj (hr.symm.trans hreply))

/-- What a loop has left in the log when the command ends: its own log, and the DISCONNECT if it
returned. -/
structure Farewell (M : Manner σ) (u d : List Event) : Prop where
  loop : Produced M u
  disconnect : d = [] ∨ (Transcript M u ∧
    (d = [.sent (.disconnect .success)] ∨ d = [.unsent (.disconnect .success)]))

namespace Farewell

variable {u d : List Event}

/-- A farewell reads nothing. -/
theorem quiet (h : Farewell M u d) : Quiet d := by
  rcases h.disconnect with rfl | ⟨-, rfl | rfl⟩ <;> simp [Quiet]

/-- So what was read is what the loop read. -/
theorem receivedPackets_eq (h : Farewell M u d) :
    receivedPackets (u ++ d) = receivedPackets u := by
  rw [receivedPackets_append, h.quiet.receivedPackets_eq_nil, List.append_nil]

theorem processed_eq (h : Farewell M u d) : processed (u ++ d) = processed u := by
  rcases h.disconnect with rfl | ⟨htranscript, rfl | rfl⟩
  · rw [List.append_nil]
  · have hsent : ∀ r, Event.sent (.disconnect .success) = .unsent r → IsReply r = false := by simp
    rw [processed_append hsent (by simp [Quiet]), processed_of_notMem htranscript.unsent_notMem]
  · have hunsent : ∀ r, Event.unsent (.disconnect .success) = .unsent r → IsReply r = false :=
      fun r hr ↦ Event.unsent.inj hr ▸ rfl
    rw [processed_append hunsent (by simp [Quiet]),
      processed_of_notMem htranscript.unsent_notMem]

/-- A farewell replies to nothing. -/
theorem written_eq (h : Farewell M u d) : written (u ++ d) = written u := by
  rw [written_append]
  rcases h.disconnect with rfl | ⟨-, rfl | rfl⟩ <;> exact List.append_nil _

/-- And it prints nothing. -/
theorem printed_eq (h : Farewell M u d) : printed (u ++ d) = printed u := by
  rw [printed, List.filterMap_append]
  rcases h.disconnect with rfl | ⟨-, rfl | rfl⟩ <;> exact List.append_nil _

end Farewell

/-- A log answers what it has processed, and processes what came in. -/
structure Answers (w : Net) (log : List Event) : Prop where
  written : written log = (processed log).filterMap Subscribe.replyTo
  processed : processed log <+: inbound w.inbox

/-- What a loop reads is what came in, in order, as far as it goes. -/
theorem reads_isPrefix_inbound (s : σ) (xs : List Stimulus) : reads M s xs <+: inbound xs := by
  induction xs generalizing s with
  | nil => exact List.prefix_refl []
  | cons x rest ih =>
    by_cases hx : ∃ p, x = .packet p
    · obtain ⟨p, rfl⟩ := hx
      rw [reads]
      split
      next s' _ => exact (List.prefix_cons_inj p).2 (ih s')
      all_goals exact List.prefix_append [p] (inbound rest)
    · replace hx : ∀ p, x ≠ .packet p := fun p hp ↦ hx ⟨p, hp⟩
      have hinbound : inbound (x :: rest) = inbound rest := by
        rcases x with p | - | e | - | -
        · exact absurd rfl (hx p)
        all_goals rfl
      rw [reads_silent hx, hinbound]
      split
      · exact ih s
      · exact List.nil_prefix

/-- What a loop and its farewell leave answers what was processed. -/
theorem Farewell.answers {w : Net} {s : σ} {u d : List Event} (h : Farewell M u d)
    (halike : RepliesAlike M) (hreads : receivedPackets u <+: reads M s w.inbox) :
    Answers w (u ++ d) where
  written := by rw [h.written_eq, h.processed_eq, written_produced halike h.loop]
  processed := by
    rw [h.processed_eq]
    exact (processed_isPrefix u).trans (hreads.trans (reads_isPrefix_inbound s w.inbox))

/-- What a loop with a limit and its DISCONNECT leave behind: unless a write failed, everything
the loop should have read is dealt with. -/
structure Left (N : Manner ℕ) (w w' : Net) (u d : List Event) : Prop extends Farewell N u d where
  log : w'.log = w.log ++ (u ++ d)
  reads : receivedPackets u <+: reads N 0 w.inbox
  whole : Broke u ∨ (Transcript N u ∧ receivedPackets u = Receive.reads N 0 w.inbox ∧
    (finish N 0 w.inbox = .ok () → w'.inbox = remaining N 0 w.inbox))

variable {N : Manner ℕ} {showTopic : Bool} {limit : Option ℕ}

/-- A loop with a limit and the DISCONNECT after it, from any state of the connection. -/
theorem wp_left {α : Type} (h : Limited N showTopic limit)
    {body : ℕ → Stimulus → Command (ℕ ⊕ α)} (hbody : Follows N body) (w : Net) :
    wp (do let _ ← react body 0; disconnect) (fun _ w' ↦ ∃ u d, Left N w w' u d)
      (fun e w' ↦ (∃ u d, Left N w w' u d) ∧
        (e = .waiting → finish N 0 w.inbox ≠ .ok ())) w := by
  rw [wp_bind]
  refine (wp_receive hbody 0 w).mono ?_ ?_
  · rintro - v ⟨⟨-, u, hu, hlog, hreads⟩, -, hinbox⟩
    have hremaining := hinbox fun x rest ↦ by
      rw [h.ending]
      exact clientEnding_ne_ok x rest
    refine wp_send _ ?_ ?_
    · exact ⟨u, _, ⟨Or.inl hu, Or.inr ⟨hu, Or.inl rfl⟩⟩, by simp [hlog],
        hreads ▸ List.prefix_refl _, Or.inr ⟨hu, hreads, fun _ ↦ hremaining⟩⟩
    · exact fun e _ ↦ ⟨⟨u, _, ⟨Or.inl hu, Or.inr ⟨hu, Or.inr rfl⟩⟩, by simp [hlog],
        hreads ▸ List.prefix_refl _, Or.inr ⟨hu, hreads, fun _ ↦ hremaining⟩⟩, by simp⟩
  · rintro e v (⟨hfinish, u, hu, hlog, hreads⟩ | ⟨-, her, t, c, ht, hc, hlog, hreads⟩)
    · have hnot : finish N 0 w.inbox ≠ .ok () := by
        rw [hfinish]
        simp
      exact ⟨⟨u, [], ⟨Or.inl hu, Or.inl rfl⟩, by simp [hlog], hreads ▸ List.prefix_refl _,
        Or.inr ⟨hu, hreads, fun hok ↦ absurd hok hnot⟩⟩, fun _ ↦ hnot⟩
    · obtain ⟨er, rfl⟩ := her
      obtain ⟨r, hr, hmem⟩ := broke_of_cut h.replies hc
      exact ⟨⟨t ++ c, [], ⟨Or.inr ⟨t, c, ht, hc, rfl⟩, Or.inl rfl⟩, by simp [hlog],
        by rwa [receivedPackets_append], Or.inl ⟨r, hr, List.mem_append_right t hmem⟩⟩, by simp⟩

/-- A loop with a limit, and the DISCONNECT after it, answer what they have processed. -/
theorem answers_loop {α : Type} (h : Limited N showTopic limit)
    {body : ℕ → Stimulus → Command (ℕ ⊕ α)} (hbody : Follows N body) (w : Net) :
    Answers w (afterwards (do let _ ← react body 0; disconnect) w) := by
  obtain ⟨u, d, hleft⟩ := ((wp_left h hbody w).mono (fun _ _ h ↦ h) fun _ _ h ↦ h.1).world
  rw [afterwards_of_log hleft.log]
  exact hleft.answers h.replies hleft.reads

/-! ### The limits

`KeepsLimit` is what is claimed of a limit: what is printed are the first messages offered, up to
the limit, and all of these unless a write failed; nothing is read once as many messages have been
read; and a run that is offered so many ends there. -/

/-- What a loop prints is the messages among the packets it has processed. -/
theorem printed_produced (h : Limited N showTopic limit) {u : List Event} (hu : Produced N u) :
    printed u = Subscribe.messages (processed u) := by
  have hflatMap : Subscribe.messages (processed u) =
      (processed u).flatMap fun p ↦ Subscribe.messages [p] := by
    rw [Subscribe.messages, List.filterMap_eq_flatMap_toList]
    refine List.flatMap_congr fun p _ ↦ ?_
    rcases p with _ | _ | m <;> rfl
  rw [hflatMap]
  refine filterMap_produced rfl (fun _ ↦ rfl) ?_ ?_ ?_ hu
  · rintro p es ⟨b, a, hb, ha, rfl⟩
    obtain rfl := h.before p b hb
    obtain rfl := h.after p a ha
    rcases N.reply p with - | r
    all_goals rcases p with _ | _ | m <;> rfl
  · intro p b hb
    obtain rfl := h.before p b hb
    rfl
  · intro p r hr hreply
    obtain ⟨ack, rfl⟩ := h.replies.eq_pubrec hr hreply
    rfl

/-- What a command with a limit does with the messages it is offered. -/
structure KeepsLimit (limit : Option ℕ) (receive : Command Unit) (w : Net) : Prop where
  /-- It prints the first ones, and no more than the limit. -/
  prints : printed (afterwards receive w) <+: within limit (offered w.inbox)
  /-- It prints all of them up to the limit, unless a write failed. -/
  exact : Broke (afterwards receive w) ∨
    printed (afterwards receive w) = within limit (offered w.inbox) ∧
      (printed (afterwards receive w)).length =
        limit.elim (offered w.inbox).length (min · (offered w.inbox).length)
  /-- It reads nothing once it has read as many messages as the limit says. -/
  eager : ∀ pre p post, receivedPackets (afterwards receive w) = pre ++ p :: post →
    Subscribe.WithinLimit limit pre
  /-- It ends with the last message, and leaves what comes after it. -/
  stops : ∀ n, limit = some n → n ≤ (offered w.inbox).length →
    Broke (afterwards receive w) ∨ (Outcome.world (receive w)).inbox = beyond n w.inbox ∧
      ∀ v, receive w ≠ .error .waiting v

/-- A write that failed stays in the log. -/
theorem Broke.append {log : List Event} (h : Broke log) (log' : List Event) :
    Broke (log ++ log') := by
  obtain ⟨r, hr, hmem⟩ := h
  exact ⟨r, hr, List.mem_append_left log' hmem⟩

theorem within_sub_zero (limit : Option ℕ) (ms : List Protocol.Publish) :
    within (limit.map (· - 0)) ms = within limit ms := by
  rcases limit with - | n <;> rfl

/-- As many messages are within a limit as there are, or as the limit says. -/
theorem length_within (limit : Option ℕ) (ms : List Protocol.Publish) :
    (within limit ms).length = limit.elim ms.length (min · ms.length) := by
  rcases limit with - | n
  · rfl
  · exact List.length_take

/-- Fewer packets hold the first of the messages. -/
theorem messages_isPrefix {ps qs : List Packet} (h : ps <+: qs) :
    Subscribe.messages ps <+: Subscribe.messages qs :=
  h.filterMap _

/-- A loop with a limit, and the DISCONNECT after it, keep the limit. -/
theorem keepsLimit_loop {α : Type} (h : Limited N showTopic limit) (hroom : limit.all (0 < ·))
    {body : ℕ → Stimulus → Command (ℕ ⊕ α)} (hbody : Follows N body) (w : Net) :
    KeepsLimit limit (do let _ ← react body 0; disconnect) w := by
  obtain ⟨u, d, hleft⟩ := ((wp_left h hbody w).mono (fun _ _ h ↦ h) fun _ _ h ↦ h.1).world
  have hlog := afterwards_of_log hleft.log
  have hmessages : Subscribe.messages (reads N 0 w.inbox) = within limit (offered w.inbox) :=
    (h.messages_reads w.inbox hroom).trans (within_sub_zero limit _)
  have hprinted := hleft.printed_eq.trans (printed_produced h hleft.loop)
  rw [← hlog] at hprinted
  refine ⟨?_, ?_, ?_, ?_⟩
  · rw [hprinted, ← hmessages]
    exact messages_isPrefix ((processed_isPrefix u).trans hleft.reads)
  · rw [hlog]
    refine hleft.whole.imp (fun hbroke ↦ hbroke.append d) fun ⟨hu, hreads, _⟩ ↦ ?_
    rw [← hlog, hprinted, processed_of_notMem hu.unsent_notMem, hreads, hmessages]
    exact ⟨rfl, length_within limit _⟩
  · intro pre p post hread
    rw [hlog, hleft.receivedPackets_eq] at hread
    obtain ⟨later, hlater⟩ := hleft.reads
    have hsplit : reads N 0 w.inbox = pre ++ p :: (post ++ later) := by
      rw [← hlater, hread, List.append_assoc, List.cons_append]
    have hleftRoom := h.room_of_reads hroom hsplit
    rwa [Nat.zero_add] at hleftRoom
  · rintro n rfl hoffered
    obtain ⟨L, rfl⟩ : ∃ L, n = L + 1 := Nat.exists_eq_succ_of_ne_zero (by
      rintro rfl
      exact Bool.noConfusion hroom)
    have hlimit : some (L + 1) = some (0 + L + 1) := by rw [Nat.zero_add]
    obtain ⟨hfinish, hremaining⟩ := h.finish_of_le hlimit hoffered
    rw [hlog]
    refine hleft.whole.imp (fun hbroke ↦ hbroke.append d) fun ⟨_, _, hinbox⟩ ↦ ?_
    refine ⟨(hinbox hfinish).trans hremaining, fun v hv ↦ ?_⟩
    exact ((wp_left h hbody w).of_error hv).2 rfl hfinish

/-- The closing DISCONNECT alone. -/
theorem wp_disconnect (w : Net) :
    wp disconnect
      (fun _ w' ↦ w'.log = w.log ++ [.sent (.disconnect .success)] ∧ w'.inbox = w.inbox)
      (fun e w' ↦ (w'.log = w.log ++ [.unsent (.disconnect .success)] ∧ w'.inbox = w.inbox) ∧
        e ≠ .waiting) w :=
  wp_send _ ⟨rfl, rfl⟩ fun _ _ ↦ ⟨⟨rfl, rfl⟩, by simp⟩

/-- All a DISCONNECT leaves is itself. -/
theorem farewell_disconnect (w : Net) :
    ∃ d, Farewell M [] d ∧ (Outcome.world (disconnect w)).log = w.log ++ ([] ++ d) ∧
      (Outcome.world (disconnect w)).inbox = w.inbox := by
  refine ((wp_disconnect w).mono ?_ ?_).world (P := fun w' ↦ ∃ d, Farewell M [] d ∧
    w'.log = w.log ++ ([] ++ d) ∧ w'.inbox = w.inbox)
  · rintro - w' ⟨hlog, hinbox⟩
    exact ⟨_, ⟨Or.inl .nil, Or.inr ⟨.nil, Or.inl rfl⟩⟩, hlog, hinbox⟩
  · rintro - w' ⟨⟨hlog, hinbox⟩, -⟩
    exact ⟨_, ⟨Or.inl .nil, Or.inr ⟨.nil, Or.inr rfl⟩⟩, hlog, hinbox⟩

/-- A DISCONNECT alone keeps the limit 0. -/
theorem keepsLimit_disconnect (w : Net) : KeepsLimit (some 0) disconnect w := by
  obtain ⟨d, hfarewell, hlog, hinbox⟩ :=
    farewell_disconnect (M := Subscribe.manner true (some 0)) w
  have hlog := afterwards_of_log hlog
  have hprinted : printed (afterwards disconnect w) = [] := by
    rw [hlog, hfarewell.printed_eq]
    rfl
  refine ⟨?_, Or.inr ⟨hprinted, ?_⟩, ?_, ?_⟩
  · rw [hprinted]
    exact List.nil_prefix
  · rw [hprinted]
    exact (Nat.zero_min _).symm
  · intro pre p post hread
    rw [hlog, hfarewell.receivedPackets_eq] at hread
    exact absurd hread (by simp)
  · intro n hn _
    obtain rfl := Option.some.inj hn
    refine Or.inr ⟨hinbox.trans (by simp [beyond]), fun v hv ↦ ?_⟩
    exact ((wp_disconnect w).of_error hv).2 rfl

/-! ### The three commands -/

/-- The commands with a receive loop. -/
inductive Receiver where
  | sub (args : Subscribe.SubArgs)
  | request (args : Request.RequestArgs)
  | bench (index : ℕ) (config : Bench.Config) (t : Bench.Subscriber.Timing)

/-- The command's `run`, from the connection on. -/
def Receiver.run : Receiver → Command Unit
  | .sub args => Subscribe.run args
  | .request args => Request.run args
  | .bench index config t => do
    let _ ← Bench.Subscriber.run index config t

/-- `run` up to its SUBACK, and the request's PUBLISH after it. It returns whether the stop signal
has been raised. -/
def Receiver.start : Receiver → Command Bool
  | .sub args => do
    if args.topic.isEmpty then fail (.usage "sub needs at least one --topic")
    Subscribe.subscribe args.topic args.qos
    return false
  | .request args => do
    let _ ← Request.publishRequest args
    return false
  | .bench index config _ => do
    send (.subscribe (Bench.Subscriber.subscribePacket config))
    react (Bench.Subscriber.awaitSubAck index) false

/-- `run` from then on. -/
def Receiver.receive : Receiver → Command Unit
  | .sub args =>
    if args.effectiveLimit = some 0 then disconnect
    else do
      Subscribe.receive args.showTopic args.effectiveLimit
      disconnect
  | .request args => Request.answer args
  | .bench index _ t => do
    let _ ← Bench.Subscriber.receive index t

/-- A command subscribes, and then receives unless it was stopped. -/
theorem Receiver.run_eq (r : Receiver) :
    r.run = r.start >>= fun stopped ↦ if stopped then return () else r.receive := by
  rcases r with args | args | ⟨index, config, t⟩
  · show Subscribe.run args = _
    by_cases htopic : args.topic = []
    · rw [Subscribe.run, Receiver.start, htopic]
      rfl
    · have hempty : args.topic.isEmpty = false := by simpa using htopic
      have hstart : (Receiver.sub args).start = (do
          Subscribe.subscribe args.topic args.qos
          return false) := by
        rw [Receiver.start, hempty]
        rfl
      rw [Subscribe.run_eq args htopic, hstart]
      simp only [bind_assoc, pure_bind]
      rfl
  · simp only [Receiver.run, Request.run, Receiver.start, bind_assoc, pure_bind]
    rfl
  · simp only [Receiver.run, Bench.Subscriber.run, Receiver.start, bind_assoc]
    refine congrArg (send _ >>= ·) (funext fun _ ↦ ?_)
    refine congrArg (react _ _ >>= ·) (funext fun stopped ↦ ?_)
    rcases stopped with - | - <;> rfl

/-- However the command goes on after its SUBACK, it answers what it has processed. -/
theorem Receiver.answers (r : Receiver) (w : Net) : Answers w (afterwards r.receive w) := by
  have hdisconnect : Answers w (afterwards disconnect w) := by
    obtain ⟨d, hfarewell, hlog, -⟩ :=
      farewell_disconnect (M := Subscribe.manner true (some 0)) w
    rw [afterwards_of_log hlog]
    exact hfarewell.answers (limited_sub true (some 0)).replies (s := 0) List.nil_prefix
  rcases r with args | args | ⟨index, config, t⟩
  · rw [Receiver.receive]
    split
    · exact hdisconnect
    · have hlimited := limited_sub args.showTopic args.effectiveLimit
      have hloop := Subscribe.follows_receive args.showTopic args.effectiveLimit
      exact answers_loop hlimited hloop w
  · rw [Receiver.receive, Request.answer, Request.awaitReplies]
    split
    · have hlimited := limited_request args.showTopic args.count
      have hloop := Request.follows_awaitReplies args.showTopic args.count
      exact answers_loop hlimited hloop w
    · exact hdisconnect
  · obtain ⟨u, hu, hlog, hreads, -⟩ :=
      produces (Bench.Subscriber.follows_receive index t) ⟨0, []⟩ w
    have hfarewell : Farewell (Bench.Subscriber.manner index t) u [] := ⟨hu, Or.inl rfl⟩
    have hworld : Outcome.world ((Receiver.bench index config t).receive w) =
        Outcome.world (Bench.Subscriber.receive index t w) := by
      show Outcome.world ((Bench.Subscriber.receive index t >>= fun _ ↦ pure ()) w) = _
      rw [bind_eq]
      rcases Bench.Subscriber.receive index t w with ⟨_, v⟩ | ⟨_, v⟩ <;> rfl
    have hlog : (Outcome.world ((Receiver.bench index config t).receive w)).log =
        w.log ++ (u ++ []) := by
      rw [hworld, List.append_nil]
      exact hlog
    rw [afterwards_of_log hlog]
    exact hfarewell.answers (fun _ ↦ Or.inl rfl) hreads

/-- **The three receive loops reply alike, and limits are exact.** Once it is subscribed, each
command writes the replies that are due to the packets it has processed, in order, and these are
the first ones that came in; so two commands that have processed as much of the same packets have
written the same replies. `sub` prints what it is offered up to its effective limit and `request`
up to its count, unless a write fails; they read nothing past the last message of the limit. -/
theorem replies_alike_and_limits_exact :
    (∀ r : Receiver,
      r.run = r.start >>= fun stopped ↦ if stopped then return () else r.receive) ∧
    (∀ (r : Receiver) (w : Net), Answers w (afterwards r.receive w)) ∧
    (∀ (r r' : Receiver) (w w' : Net), inbound w.inbox = inbound w'.inbox →
      (processed (afterwards r.receive w)).length = (processed (afterwards r'.receive w')).length →
      written (afterwards r.receive w) = written (afterwards r'.receive w')) ∧
    (∀ (args : Subscribe.SubArgs) (w : Net),
      KeepsLimit args.effectiveLimit (Receiver.sub args).receive w) ∧
    ∀ (args : Request.RequestArgs) (w : Net),
      KeepsLimit (some args.count) (Receiver.request args).receive w := by
  refine ⟨Receiver.run_eq, Receiver.answers, ?_, ?_, ?_⟩
  · intro r r' w w' hinbound hlength
    have hanswers := r.answers w
    have hanswers' := r'.answers w'
    have hprocessed := hanswers'.processed
    rw [← hinbound] at hprocessed
    have hsame : processed (afterwards r.receive w) = processed (afterwards r'.receive w') :=
      (List.prefix_of_prefix_length_le hanswers.processed hprocessed hlength.le).eq_of_length
        hlength
    rw [hanswers.written, hanswers'.written, hsame]
  · intro args w
    rw [Receiver.receive]
    split
    next hzero =>
      rw [hzero]
      exact keepsLimit_disconnect w
    next hne =>
      have hroom : args.effectiveLimit.all (0 < ·) := by
        rcases hlimit : args.effectiveLimit with - | n
        · rfl
        · have hpos : n ≠ 0 := fun hn ↦ hne (by rw [hlimit, hn])
          simpa using Nat.pos_of_ne_zero hpos
      exact keepsLimit_loop (limited_sub args.showTopic args.effectiveLimit) hroom
        (Subscribe.follows_receive args.showTopic args.effectiveLimit) w
  · intro args w
    rw [Receiver.receive, Request.answer, Request.awaitReplies]
    split
    next hpos =>
      exact keepsLimit_loop (limited_request args.showTopic args.count) (by simpa using hpos)
        (Request.follows_awaitReplies args.showTopic args.count) w
    next hzero =>
      rw [Nat.eq_zero_of_not_pos hzero]
      exact keepsLimit_disconnect w

end Replies

end PulsemqCli
