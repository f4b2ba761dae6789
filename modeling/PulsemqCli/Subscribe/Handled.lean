import PulsemqCli.Subscribe

/-!
# What `sub` does with the packets it reads

Every PUBLISH up to the limit should be printed and acknowledged, and every PUBREL answered,
wherever in the inbound stream it stands. `Handled` says so of a log. The receive loop does all of
this; the wait for the SUBACK does none of it. So a run handles what it reads precisely when
nothing it reads before the SUBACK is due anything.

A run has two loops one after the other. Its log is the transcript of the wait followed by what the
receive loop produced, and `Ran` and `Left` take it apart there; a write may fail in either, and
then the log ends with a cut. The response to a packet is looked up in the whole log. Since a
response ends with the next read, where the log is taken apart matters only for the packet read last
in the first part (`response_append_of_not_quiet`).

With a granted subscription that packet is the SUBACK, which is due nothing. So a packet that was
read before it and is due something was responded to with pings at most.
-/

namespace PulsemqCli

namespace Subscribe

open Reactive Protocol Client Receive

/-- The messages among the packets. -/
def messages (packets : List Packet) : List Protocol.Publish :=
  packets.filterMap fun
    | .publish p => some p
    | _ => none

/-- One more message is within the limit. -/
def WithinLimit (limit : Option ℕ) (past : List Packet) : Prop :=
  limit.all ((messages past).length < ·)

/-- Every PUBLISH received up to the limit is printed, every PUBLISH at QoS 1 or 2 acknowledged
and every PUBREL answered with PUBCOMP, each before the next packet is read, unless a write failed
there and then. -/
def Handled (showTopic : Bool) (limit : Option ℕ) (log : List Event) : Prop :=
  ∀ pre p post, log = pre ++ .received p :: post →
    (∃ r, .unsent r ∈ response post) ∨
    ((∀ m, p = .publish m → WithinLimit limit (receivedPackets pre) →
        .printed m showTopic ∈ response post) ∧
      ∀ r, replyTo p = some r → .sent r ∈ response post)

/-- A packet that is neither to be replied to nor to be printed. -/
def NothingDue (limit : Option ℕ) (p : Packet) : Prop :=
  replyTo p = none ∧ ∀ m, p = .publish m → limit = some 0

/-- The packets `run` reads before the receive loop, the last of which ends the wait. -/
def readWaiting (args : SubArgs) (xs : List Stimulus) : List Packet :=
  if args.topic.isEmpty then [] else reads (waitManner args.topic) () xs

/-! ### The log of a run -/

/-- What a run whose SUBSCRIBE was written leaves behind: the wait's log `t`, the receive loop's
log `u` and the DISCONNECT in `d`. -/
structure Ran (args : SubArgs) (w w' : Net) (t u d : List Event) : Prop where
  log : w'.log = w.log ++ [.sent (.subscribe (subscribePacket
    (succPacketId w.store.nextPacketId) args.topic args.qos))] ++ t ++ (u ++ d)
  wait : Produced (waitManner args.topic) t
  wait_accepts : w.AcceptsWrites → Transcript (waitManner args.topic) t
  reads : receivedPackets t <+: reads (waitManner args.topic) () w.inbox
  reads_accepts : w.AcceptsWrites →
    receivedPackets t = Receive.reads (waitManner args.topic) () w.inbox
  granted : u ++ d = [] ∨ finish (waitManner args.topic) () w.inbox = .ok ()
  loop : Produced (manner args.showTopic args.effectiveLimit) u
  disconnect : Quiet d

/-- What a run leaves behind: nothing but the SUBSCRIBE if that could not be written. -/
def Left (args : SubArgs) (w w' : Net) : Prop :=
  (¬w.AcceptsWrites ∧ ∃ p, w'.log = w.log ++ [.unsent p]) ∨ ∃ t u d, Ran args w w' t u d

/-- A wait that did not end in a grant leaves only its own log. -/
theorem left_of_wait {args : SubArgs} {w w' : Net} {t : List Event}
    (ht : Produced (waitManner args.topic) t)
    (hlog : w'.log = (subscribed args.topic args.qos w).log ++ t)
    (hreads : receivedPackets t <+: reads (waitManner args.topic) () w.inbox)
    (haccepts : w.AcceptsWrites → Transcript (waitManner args.topic) t ∧
      receivedPackets t = reads (waitManner args.topic) () w.inbox) : Left args w w' :=
  Or.inr ⟨t, [], [], {
    log := by simpa [subscribed] using hlog
    wait := ht
    wait_accepts := fun hw ↦ (haccepts hw).1
    reads := hreads
    reads_accepts := fun hw ↦ (haccepts hw).2
    granted := Or.inl rfl
    loop := Or.inl .nil
    disconnect := by simp [Quiet] }⟩

/-- A granted wait, what the receive loop did, and the DISCONNECT. -/
theorem left_of_loop {args : SubArgs} {w v w' : Net} (u d : List Event)
    (h : Ended (waitManner args.topic) () (.ok ()) (subscribed args.topic args.qos w) v)
    (hu : Produced (manner args.showTopic args.effectiveLimit) u) (hd : Quiet d)
    (hlog : w'.log = v.log ++ (u ++ d)) : Left args w w' := by
  obtain ⟨hfinish, t, ht, hv, hreads⟩ := h
  exact Or.inr ⟨t, u, d, {
    log := by simpa [subscribed, hv] using hlog
    wait := Or.inl ht
    wait_accepts := fun _ ↦ ht
    reads := hreads ▸ List.prefix_refl _
    reads_accepts := fun _ ↦ hreads
    granted := Or.inr hfinish
    loop := hu
    disconnect := hd }⟩

/-- **The log of a run.** -/
theorem left_run (args : SubArgs) (h : args.topic ≠ []) (w : Net) :
    Left args w (Outcome.world (run args w)) := by
  have hwp : wp (run args) (fun _ ↦ Left args w) (fun _ ↦ Left args w) w := by
    rw [run_eq args h, wp_bind]
    refine wp_subscribe _ _ ?_ ?_ ?_
    · intro v hv hfault _
      split
      · refine wp_send _ ?_ ?_
        · exact left_of_loop [] [.sent (.disconnect .success)] hv (Or.inl .nil)
            (by simp [Quiet]) rfl
        · exact fun e _ ↦ left_of_loop [] [.unsent (.disconnect .success)] hv (Or.inl .nil)
            (by simp [Quiet]) rfl
      · have hloop := follows_receive args.showTopic args.effectiveLimit
        refine (wp_receive_disconnect hloop 0 v).mono ?_ ?_
        · rintro - w' ⟨-, u, -, -, h⟩
          exact left_of_loop u _ hv h.loop h.disconnect h.log
        · rintro e w' (⟨-, u, -, -, h⟩ | ⟨-, u, d, h⟩)
          · exact left_of_loop u [] hv h.loop h.disconnect h.log
          · exact left_of_loop u d hv h.loop h.disconnect h.log
    · rintro e w' (⟨-, t, ht, hlog, hreads⟩ | ⟨hv, -, t, c, ht, hc, hlog, hreads⟩)
      · exact left_of_wait (Or.inl ht) hlog (hreads ▸ List.prefix_refl _) fun _ ↦ ⟨ht, hreads⟩
      · exact left_of_wait (Or.inr ⟨t, c, ht, hc, rfl⟩) (by simp [hlog])
          (by rwa [receivedPackets_append]) fun hw ↦ absurd hw hv
    · exact fun e w' p hv hlog ↦ Or.inl ⟨hv, p, hlog⟩
  exact hwp.world

/-! ### What the receive loop handles -/

/-- A packet the receive loop responds to is handled. -/
theorem handled_of_responded {showTopic : Bool} {limit : Option ℕ} {p : Packet} {es : List Event}
    (h : Responded (manner showTopic limit) p es) :
    (∃ r, .unsent r ∈ es) ∨ ((∀ m, p = .publish m → .printed m showTopic ∈ es) ∧
      ∀ r, replyTo p = some r → .sent r ∈ es) := by
  obtain ⟨es', pings, rfl, -, ⟨b, a, hb, ha, hes⟩ | ⟨b, r, -, -, rfl⟩⟩ := h
  · have hes' : es' = (replyTo p).toList.map .sent ++ delivery showTopic p := by
      rw [show b = [] from hb, show a = delivery showTopic p from ha] at hes
      simpa [manner] using hes
    refine Or.inr ⟨fun m hm ↦ ?_, fun r hr ↦ ?_⟩
    · simp [hes', hm, delivery]
    · simp [hes', hr]
  · exact Or.inl ⟨r, by simp⟩

/-! ### What the wait for the SUBACK does not

The wait's manner replies to nothing and delivers nothing. So whatever is due for a packet it reads
is missing from the response, and nothing that comes later can make up for it. -/

/-- The wait responds to a packet with nothing but pings. -/
theorem ping_of_responded_wait {filters : List String} {p : Packet} {es : List Event}
    (h : Responded (waitManner filters) p es) :
    ∀ e ∈ es, e = .sent .pingreq ∨ e = .unsent .pingreq := by
  obtain ⟨es', pings, rfl, hpings, ⟨b, a, hb, ha, hes⟩ | ⟨b, r, -, hr, -⟩⟩ := h
  · have hes' : es' = [] := by
      rw [show b = [] from hb, show a = [] from ha] at hes
      simpa [waitManner] using hes
    rw [hes', List.nil_append]
    exact hpings
  · cases hr

/-- A response that ends with a later read, or with the log, is what it is without what comes
after the log. -/
theorem response_append_of_not_quiet {post rest : List Event} (h : Quiet post → rest = []) :
    response (post ++ rest) = response post := by
  by_cases hquiet : Quiet post
  · rw [h hquiet, List.append_nil]
  · simp only [Quiet, not_forall, not_not] at hquiet
    obtain ⟨e, he, q, rfl⟩ := hquiet
    obtain ⟨a, b, rfl⟩ := List.append_of_mem he
    rw [List.append_assoc, List.cons_append, response_append_received, response_append_received]

/-- A packet read while waiting that does not end the wait is responded to with pings at most. -/
theorem Ran.ping_of_read {args : SubArgs} {w w' : Net} {t u d pre post : List Event} {p : Packet}
    (h : Ran args w w' t u d) (hw : w.AcceptsWrites) (ht : t = pre ++ .received p :: post)
    (hp : ∀ ack, p ≠ .suback ack) :
    ∀ e ∈ response (post ++ (u ++ d)), e = .sent .pingreq := by
  have hcut : response (post ++ (u ++ d)) = response post := by
    refine response_append_of_not_quiet fun hquiet ↦ ?_
    refine h.granted.resolve_right fun hfinish ↦ ?_
    obtain ⟨init, q, s', hreads, ⟨hdone, -⟩ | ⟨_, -, hr⟩⟩ :=
      exists_last_of_finish (by simp) clientEnding_ne_ok hfinish
    · have hlast : receivedPackets pre ++ [p] = init ++ [q] := by
        rw [← hreads, ← h.reads_accepts hw, ht]
        simp [hquiet.receivedPackets_eq_nil]
      obtain rfl := List.singleton_inj.1 (List.append_inj' hlast rfl).2
      cases p with
      | suback ack => exact hp ack rfl
      | _ => cases hdone
    · cases hr
  rw [hcut]
  intro e he
  rcases ping_of_responded_wait (h.wait.split ht).2 e he with rfl | rfl
  · rfl
  · refine absurd ?_ ((h.wait_accepts hw).unsent_notMem .pingreq)
    rw [ht]
    have hmem : .unsent .pingreq ∈ post := (List.takeWhile_prefix _).subset he
    simp [hmem]

/-! ### The two together -/

/-- A list with a PUBLISH has a first one. -/
theorem exists_first_publish {ps : List Packet} {m : Protocol.Publish} (h : .publish m ∈ ps) :
    ∃ a m' b, ps = a ++ .publish m' :: b ∧ messages a = [] := by
  induction ps with
  | nil => cases h
  | cons p ps ih =>
    by_cases hp : ∃ m', p = .publish m'
    · obtain ⟨m', rfl⟩ := hp
      exact ⟨[], m', ps, rfl, rfl⟩
    · obtain ⟨a, m', b, rfl, ha⟩ := ih ((List.mem_cons.1 h).resolve_left fun h ↦ hp ⟨m, h.symm⟩)
      refine ⟨p :: a, m', b, rfl, ?_⟩
      cases p with
      | publish m' => exact absurd ⟨m', rfl⟩ hp
      | _ => exact ha

/-- The first message is within every limit but 0. -/
theorem withinLimit_of_messages_eq_nil {limit : Option ℕ} {past : List Packet}
    (h : messages past = []) (hlimit : limit ≠ some 0) : WithinLimit limit past := by
  rcases limit with - | n
  · rfl
  · have hn : n ≠ 0 := fun hn ↦ hlimit (by rw [hn])
    simpa [WithinLimit, h] using Nat.pos_of_ne_zero hn

/-- A run before whose SUBACK nothing is due handles everything. -/
theorem Ran.handled {args : SubArgs} {w w' : Net} {t u d : List Event}
    (h : Ran args w w' t u d) (hlog : w.log = [])
    (hdue : ∀ p ∈ Receive.reads (waitManner args.topic) () w.inbox,
      NothingDue args.effectiveLimit p) :
    Handled args.showTopic args.effectiveLimit w'.log := by
  intro pre p post heq
  rw [h.log, hlog, List.nil_append] at heq
  rcases split_at heq with ⟨post', hwait, rfl⟩ | ⟨pre', hloop, -⟩
  · -- Before the SUBACK nothing is due.
    right
    have hmem : p ∈ receivedPackets t := by
      have : p ∈ receivedPackets (pre ++ .received p :: post') := by simp
      rw [← hwait] at this
      simpa using this
    obtain ⟨hreply, hprint⟩ := hdue p (h.reads.subset hmem)
    refine ⟨fun m hm hlimit ↦ ?_, fun r hr ↦ ?_⟩
    · rw [hprint m hm] at hlimit
      simp [WithinLimit] at hlimit
    · rw [hreply] at hr
      cases hr
  · -- After it, the receive loop deals with everything.
    obtain ⟨post', hu, rfl⟩ := h.disconnect.split_append hloop
    have hsub := (response_isPrefix_append post' d).subset
    refine (handled_of_responded (h.loop.split hu).2).imp ?_ ?_
    · exact fun ⟨r, hr⟩ ↦ ⟨r, hsub hr⟩
    · exact fun ⟨hprint, hreply⟩ ↦
        ⟨fun m hm _ ↦ hsub (hprint m hm), fun r hr ↦ hsub (hreply r hr)⟩

/-- A run that handles everything had nothing due before its SUBACK. -/
theorem Ran.nothingDue {args : SubArgs} {w w' : Net} {t u d : List Event}
    (h : Ran args w w' t u d) (hw : w.AcceptsWrites) (hlog : w.log = [])
    (hhandled : Handled args.showTopic args.effectiveLimit w'.log) :
    ∀ p ∈ Receive.reads (waitManner args.topic) () w.inbox, NothingDue args.effectiveLimit p := by
  have hsplit : ∀ {pre post p}, t = pre ++ .received p :: post → (∀ ack, p ≠ .suback ack) →
      (∀ m, p = .publish m → ¬WithinLimit args.effectiveLimit (receivedPackets pre)) ∧
        replyTo p = none := by
    intro pre post p ht hp
    have hping := h.ping_of_read hw ht hp
    rcases hhandled (.sent (.subscribe (subscribePacket (succPacketId w.store.nextPacketId)
      args.topic args.qos)) :: pre) p (post ++ (u ++ d)) (by simp [h.log, hlog, ht]) with
      ⟨r, hr⟩ | ⟨hprint, hreply⟩
    · cases hping _ hr
    · refine ⟨fun m hm hlimit ↦ ?_, ?_⟩
      · cases hping _ (hprint m hm (by simpa using hlimit))
      · rcases hr : replyTo p with - | r
        · rfl
        · obtain rfl : r = .pingreq := by simpa using hping _ (hreply r hr)
          cases p <;> simp [replyTo, ackFor] at hr
          split at hr
          · cases hr
          · split at hr <;> cases hr
  have hread : ∀ {a b q}, Receive.reads (waitManner args.topic) () w.inbox = a ++ q :: b →
      ∃ pre post, t = pre ++ .received q :: post ∧ receivedPackets pre = a := fun heq ↦
    exists_split_of_receivedPackets ((h.reads_accepts hw).trans heq)
  intro p hp
  refine ⟨?_, fun m hm ↦ ?_⟩
  · by_cases hack : ∃ ack, p = .suback ack
    · obtain ⟨ack, rfl⟩ := hack
      rfl
    · obtain ⟨a, b, hab⟩ := List.append_of_mem hp
      obtain ⟨pre, post, ht, -⟩ := hread hab
      exact (hsplit ht fun ack hp ↦ hack ⟨ack, hp⟩).2
  · by_contra hlimit
    obtain ⟨a, m', b, hab, ha⟩ := exists_first_publish (hm ▸ hp)
    obtain ⟨pre, post, ht, hpre⟩ := hread hab
    have hack : ∀ ack, Packet.publish m' ≠ .suback ack := fun _ ↦ Packet.noConfusion
    refine (hsplit ht hack).1 m' rfl (withinLimit_of_messages_eq_nil ?_ hlimit)
    rw [hpre, ha]

/-- **Handled, exactly.** Whichever writes fail, a `sub` run handles every packet it reads if and
only if no packet it reads before the SUBACK is due anything: no PUBREL, no PUBLISH to be
acknowledged, and unless the limit is 0 no PUBLISH at all. -/
theorem handled_iff_nothingDue (args : SubArgs) (keepAlive : UInt16) (inbox : List Stimulus) :
    (∀ fault, Handled args.showTopic args.effectiveLimit
      (afterwards (run args) (Net.connected keepAlive fault inbox))) ↔
    ∀ p ∈ readWaiting args inbox, NothingDue args.effectiveLimit p := by
  by_cases htopic : args.topic = []
  · have hrun : ∀ fault, afterwards (run args) (Net.connected keepAlive fault inbox) = [] := by
      intro fault
      refine afterwards_of_log ?_
      rw [run, htopic]
      rfl
    refine iff_of_true (fun fault pre p post heq ↦ ?_) fun p hp ↦ ?_
    · simp [hrun] at heq
    · simp [readWaiting, htopic] at hp
  · have hreads : readWaiting args inbox = Receive.reads (waitManner args.topic) () inbox := by
      simp [readWaiting, htopic]
    rw [hreads]
    constructor
    · intro hhandled
      have hw : (Net.connected keepAlive (fun _ ↦ none) inbox).AcceptsWrites := fun _ ↦ rfl
      rcases left_run args htopic (Net.connected keepAlive (fun _ ↦ none) inbox) with
        ⟨hv, -⟩ | ⟨t, u, d, h⟩
      · exact absurd hw hv
      · exact h.nothingDue hw rfl (hhandled fun _ ↦ none)
    · intro hdue fault
      rcases left_run args htopic (Net.connected keepAlive fault inbox) with
        ⟨-, p, hlog⟩ | ⟨t, u, d, h⟩
      · rw [afterwards_of_log hlog]
        intro pre q post heq
        have hmem : .received q ∈ [Event.unsent p] := by
          rw [show [Event.unsent p] = pre ++ .received q :: post from heq]
          simp
        cases List.mem_singleton.1 hmem
      · exact h.handled rfl hdue

/-- A retained QoS 1 PUBLISH. -/
def retained : Protocol.Publish where
  dup := false
  qos := .atLeastOnce
  retain := true
  topic := "t"
  packetId := some 7
  properties := {}
  payload := [0x78]

/-- A retained PUBLISH that arrives before the SUBACK is neither printed nor acknowledged. -/
theorem not_handled_retained :
    ¬Handled false (some 1)
      (afterwards (run ⟨["t"], .atLeastOnce, false, some 1, 0⟩)
        (Net.connected 60 (fun _ ↦ none)
          [.packet (.publish retained), .packet (.suback ⟨1, [⟨0x01⟩]⟩)])) := by
  intro h
  have hresp := h [.sent (.subscribe (subscribePacket 1 ["t"] .atLeastOnce))] (.publish retained)
    [.received (.suback ⟨1, [⟨0x01⟩]⟩)] rfl
  rw [response_cons_received] at hresp
  rcases hresp with ⟨r, hr⟩ | ⟨-, hreply⟩
  · cases hr
  · cases hreply (.puback ⟨7, .success⟩) rfl

end Subscribe

end PulsemqCli
