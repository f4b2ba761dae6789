import PulsemqCli.Publish.Lines
import PulsemqCli.Replies
import PulsemqCli.Terminal

/-!
# A pipe from `sub` to `pub --stdin-lines`

To a pipe `sub` writes each payload as it is, and an LF after it; `pub --stdin-lines` publishes what
`BufRead::lines` makes of that. So a pipe from the one to the other relays a feed from broker to
broker. A payload gets through as it is exactly if it is text on one line: if it is UTF-8, has no LF
and does not end in CR.

The pipe joins two programs that know nothing of each other. On its left end, what `sub` writes to
stdout is read off its log: `stdout` folds `print_message` over the messages printed, and `feed` is
the text that this comes to without `--show-topic`. On its right end `pub` reads that text as lines.
`lines_feed_iff` is about the text alone, and says when the lines are the payloads.

A text on its way through a pipe has no marks where one payload ends but its LFs. So a payload with
an LF becomes two messages, and counting LFs is how the converse is shown: the lines of a feed are
as many as its LFs (`length_rawLines`), and as many as the payloads only if no payload has one.

`relays_iff` is about a run of `pub` whose broker acknowledges one message for each payload: it
returns, and has published them, or it has not published them.
-/

namespace PulsemqCli

namespace Pipeline

open Reactive Protocol Client Receive Publish Utf8

/-- What the events of a run write to stdout, where that is a pipe. -/
def stdout : List Event → Option (List UInt8)
  | [] => some []
  | .printed m showTopic :: rest => do
    let bytes ← Terminal.printMessage m showTopic false
    let more ← stdout rest
    return bytes ++ more
  | _ :: rest => stdout rest

/-- The payload is text on one line, as `BufRead::lines` reads it. -/
structure OneLine (payload : List UInt8) : Prop where
  valid : Valid payload
  lineFeed : lineFeed ∉ payload
  carriageReturn : payload.getLast? ≠ some carriageReturn

/-- Each payload with the LF that `sub` writes after it. -/
def feed (payloads : List (List UInt8)) : List UInt8 :=
  payloads.flatMap (· ++ [lineFeed])

/-- A payload, its LF, and the rest. -/
theorem feed_cons (payload : List UInt8) (payloads : List (List UInt8)) :
    feed (payload :: payloads) = payload ++ lineFeed :: feed payloads := by
  rw [feed, List.flatMap_cons, List.append_assoc]
  rfl

/-! ### What `sub` writes

Every message in the log is printed with the setting of the run. This needs to be said, since the
setting is an argument of the event; it follows from the manner of the loop. -/

/-- **To a pipe `sub` writes the payloads unaltered.** -/
theorem stdout_eq {log : List Event} (h : ∀ m b, .printed m b ∈ log → b = false) :
    stdout log = some (feed ((Replies.printed log).map (·.payload))) := by
  induction log with
  | nil => rfl
  | cons e log ih =>
    have ih' := ih fun m b hm ↦ h m b (List.mem_cons_of_mem e hm)
    cases e with
    | printed m b =>
      obtain rfl := h m b List.mem_cons_self
      rw [stdout, ih', show Replies.printed (.printed m false :: log) =
        m :: Replies.printed log from rfl, List.map_cons, feed_cons]
      exact congrArg some (List.append_assoc _ _ _)
    | _ => exact ih'

/-- What these events print, they print with the topic or without as they are told to. -/
def Shows (showTopic : Bool) (es : List Event) : Prop :=
  ∀ m b, .printed m b ∈ es → b = showTopic

/-- Each message is printed by itself. -/
theorem shows_append {showTopic : Bool} {es es' : List Event} :
    Shows showTopic (es ++ es') ↔ Shows showTopic es ∧ Shows showTopic es' := by
  simp only [Shows, List.mem_append, or_imp, forall_and]

/-- Where nothing is printed, there is no topic either. -/
theorem shows_of_notMem {showTopic : Bool} {es : List Event} (h : ∀ m b, .printed m b ∉ es) :
    Shows showTopic es :=
  fun m b hm ↦ absurd hm (h m b)

section Loop

variable {σ : Type} {M : Manner σ} {showTopic : Bool}

/-- What each exchange does, a transcript does. -/
theorem shows_of_transcript (hbefore : ∀ p es, M.before p es → Shows showTopic es)
    (hafter : ∀ p es, M.after p es → Shows showTopic es) {t : List Event} (h : Transcript M t) :
    Shows showTopic t := by
  induction h with
  | nil => exact shows_of_notMem (by simp)
  | ping _ ih => exact shows_append.2 ⟨ih, shows_of_notMem (by simp)⟩
  | exchange p _ hes ih =>
    obtain ⟨es, es', hes, hes', rfl⟩ := hes
    refine shows_append.2 ⟨ih, ?_⟩
    rw [← List.singleton_append]
    refine shows_append.2 ⟨shows_append.2 ⟨shows_append.2 ⟨?_, hbefore p es hes⟩, ?_⟩,
      hafter p es' hes'⟩
    · exact shows_of_notMem (by simp)
    · exact shows_of_notMem (by simp)

theorem shows_of_cut (hbefore : ∀ p es, M.before p es → Shows showTopic es) {c : List Event}
    (h : Cut M c) : Shows showTopic c := by
  cases h with
  | ping => exact shows_of_notMem (by simp)
  | @reply p r es hes _ =>
    rw [← List.singleton_append]
    refine shows_append.2 ⟨shows_append.2 ⟨shows_of_notMem (by simp), hbefore p es hes⟩, ?_⟩
    exact shows_of_notMem (by simp)

theorem shows_of_produced (hbefore : ∀ p es, M.before p es → Shows showTopic es)
    (hafter : ∀ p es, M.after p es → Shows showTopic es) {u : List Event} (h : Produced M u) :
    Shows showTopic u := by
  rcases h with h | ⟨t, c, ht, hc, rfl⟩
  · exact shows_of_transcript hbefore hafter h
  · exact shows_append.2 ⟨shows_of_transcript hbefore hafter ht, shows_of_cut hbefore hc⟩

end Loop

theorem shows_of_eq_nil (showTopic : Bool) (_ : Packet) (es : List Event) (h : es = []) :
    Shows showTopic es := by
  subst h
  exact shows_of_notMem (by simp)

/-- A message is delivered with its topic if it was asked for. -/
theorem shows_delivery (showTopic : Bool) (p : Packet) :
    Shows showTopic (Subscribe.delivery showTopic p) := by
  intro m b hm
  cases p with
  | publish m' =>
    simp only [Subscribe.delivery, List.mem_cons, reduceCtorEq, List.not_mem_nil, or_false] at hm
    exact (Event.printed.inj hm).2
  | _ => cases hm

/-- The world differs by events that show what they are told to. -/
def ShowsSince (showTopic : Bool) (w w' : Net) : Prop :=
  ∃ t, w'.log = w.log ++ t ∧ Shows showTopic t

/-- Events that are added after it. -/
theorem ShowsSince.append {showTopic : Bool} {w v w' : Net} (h : ShowsSince showTopic w v)
    {es : List Event} (hlog : w'.log = v.log ++ es) (hes : Shows showTopic es) :
    ShowsSince showTopic w w' := by
  obtain ⟨t, hv, ht⟩ := h
  exact ⟨t ++ es, by rw [hlog, hv, List.append_assoc], shows_append.2 ⟨ht, hes⟩⟩

/-- However `sub` ends, it has printed with the topic or without as it was told to. -/
theorem shows_run (args : Subscribe.SubArgs) (w : Net) :
    Shows args.showTopic (afterwards (Subscribe.run args) w) := by
  suffices h : wp (Subscribe.run args) (fun _ ↦ ShowsSince args.showTopic w)
      (fun _ ↦ ShowsSince args.showTopic w) w by
    obtain ⟨t, hlog, ht⟩ := h.world
    rwa [afterwards_of_log hlog]
  have hquiet : ∀ {v w' : Net} {e : Event}, (∀ m b, e ≠ .printed m b) →
      ShowsSince args.showTopic w v → w'.log = v.log ++ [e] → ShowsSince args.showTopic w w' :=
    fun he hv hlog ↦ hv.append hlog
      (shows_of_notMem fun m b hm ↦ he m b (List.mem_singleton.1 hm).symm)
  have hw : ShowsSince args.showTopic w w := ⟨[], by simp, shows_of_notMem (by simp)⟩
  have hsubscribed : ShowsSince args.showTopic w (Subscribe.subscribed args.topic args.qos w) :=
    hquiet (by simp) hw rfl
  have hwait : ∀ {t}, Transcript (Subscribe.waitManner args.topic) t → Shows args.showTopic t :=
    shows_of_transcript (shows_of_eq_nil _) (shows_of_eq_nil _)
  by_cases htopic : args.topic = []
  · rw [Subscribe.run, htopic]
    exact hw
  rw [Subscribe.run_eq args htopic, wp_bind]
  refine Subscribe.wp_subscribe _ _ ?_ ?_ ?_
  · rintro v ⟨-, t, ht, hv, -⟩ - -
    have hgranted := hsubscribed.append hv (hwait ht)
    split
    · exact wp_send _ (hquiet (by simp) hgranted rfl) fun _ _ ↦ hquiet (by simp) hgranted rfl
    · have hloop := Subscribe.follows_receive args.showTopic args.effectiveLimit
      have hleft : ∀ w', (∃ u d, Replies.Left
          (Subscribe.manner args.showTopic args.effectiveLimit) v w' u d) →
          ShowsSince args.showTopic w w' := by
        rintro w' ⟨u, d, hu⟩
        refine hgranted.append hu.log (shows_append.2 ⟨?_, ?_⟩)
        · exact shows_of_produced (shows_of_eq_nil _) (fun p es h ↦ h ▸ shows_delivery _ p) hu.loop
        · rcases hu.disconnect with rfl | ⟨-, rfl | rfl⟩ <;> exact shows_of_notMem (by simp)
      exact (Replies.wp_left (Replies.limited_sub _ _) hloop v).mono (fun _ ↦ hleft)
        fun _ w' h ↦ hleft w' h.1
  · rintro e w' (⟨-, t, ht, hlog, -⟩ | ⟨-, -, t, c, ht, hc, hlog, -⟩)
    · exact hsubscribed.append hlog (hwait ht)
    · have hbroken : Shows args.showTopic (t ++ c) :=
        shows_append.2 ⟨hwait ht, shows_of_cut (shows_of_eq_nil _) hc⟩
      exact hsubscribed.append (by rw [hlog, List.append_assoc]) hbroken
  · exact fun e w' p _ hlog ↦ hquiet (by simp) hw hlog

/-- The payloads of the messages that a run of `sub` prints, however it ends. -/
def relayed (args : Subscribe.SubArgs) (w : Net) : List (List UInt8) :=
  (Replies.printed (afterwards (Subscribe.run args) w)).map (·.payload)

/-- What a run of `sub` without `--show-topic` writes to a pipe. -/
theorem stdout_run {args : Subscribe.SubArgs} (htopic : args.showTopic = false) (w : Net) :
    stdout (afterwards (Subscribe.run args) w) = some (feed (relayed args w)) :=
  stdout_eq (htopic ▸ shows_run args w)

/-! ### What `pub` reads -/

/-- Where the bytes end with an LF there are as many lines as LFs. -/
theorem length_rawLines {bytes : List UInt8} (h : bytes = [] ∨ bytes.getLast? = some lineFeed) :
    (rawLines bytes).length = bytes.count lineFeed := by
  induction bytes using lines_induction with
  | last l hl =>
    have hnil : l = [] := h.resolve_right fun hlast ↦ hl (List.mem_of_getLast? hlast)
    rw [hnil]
    rfl
  | line l rest hl ih =>
    have hrest : rest = [] ∨ rest.getLast? = some lineFeed := by
      rcases h with h | h
      · simp at h
      · refine or_iff_not_imp_left.2 fun hne ↦ ?_
        rwa [List.getLast?_append_of_ne_nil _ (List.cons_ne_nil _ _),
          List.getLast?_cons_of_ne_nil hne] at h
    rw [rawLines_append hl, List.length_cons, ih hrest, List.count_append, List.count_cons_self,
      List.count_eq_zero.2 hl, Nat.zero_add]

/-- A feed ends with an LF, unless it is empty. -/
theorem feed_ends (ps : List (List UInt8)) :
    feed ps = [] ∨ (feed ps).getLast? = some lineFeed := by
  rcases ps.eq_nil_or_concat' with rfl | ⟨ps, p, rfl⟩
  · exact .inl rfl
  · refine .inr ?_
    rw [feed, List.flatMap_append, List.flatMap_singleton, ← List.append_assoc,
      List.getLast?_concat]

/-- A feed has an LF for each payload, and those that are in the payloads. -/
theorem count_feed (ps : List (List UInt8)) :
    (feed ps).count lineFeed = ps.length + (ps.map (List.count lineFeed)).sum := by
  induction ps with
  | nil => rfl
  | cons p ps ih =>
    rw [feed_cons, List.count_append, List.count_cons_self, ih, List.length_cons, List.map_cons,
      List.sum_cons]
    omega

/-- A payload on one line is read back as it is. -/
theorem nextLine_eq_iff {p : List UInt8} (hp : lineFeed ∉ p) :
    nextLine (p ++ [lineFeed]) = .ok p ↔ OneLine p := by
  rw [nextLine_eq_ok_iff, chomp_lineFeed_iff, valid_append_ascii_iff (by decide)]
  constructor
  · rintro ⟨⟨hvalid, -⟩, hlast⟩
    exact ⟨hvalid, hp, hlast⟩
  · exact fun h ↦ ⟨⟨h.valid, valid_nil⟩, h.carriageReturn⟩

/-- Payloads without an LF are one line each. -/
theorem lines_feed {ps : List (List UInt8)} (h : ∀ p ∈ ps, lineFeed ∉ p) :
    lines (feed ps) = ps.map fun p ↦ nextLine (p ++ [lineFeed]) := by
  induction ps with
  | nil => rfl
  | cons p ps ih =>
    obtain ⟨hp, hps⟩ := List.forall_mem_cons.1 h
    rw [feed_cons, lines, rawLines_append hp, List.map_cons, ← lines, ih hps, List.map_cons]

/-- **The lines of a feed are its payloads exactly if each of them is on one line.** -/
theorem lines_feed_iff (ps : List (List UInt8)) :
    lines (feed ps) = ps.map .ok ↔ ∀ p ∈ ps, OneLine p := by
  have hmap (h : ∀ p ∈ ps, lineFeed ∉ p) :
      lines (feed ps) = ps.map .ok ↔ ∀ p ∈ ps, OneLine p := by
    rw [lines_feed h, List.map_inj_left]
    exact forall₂_congr fun p hp ↦ nextLine_eq_iff (h p hp)
  refine ⟨fun h ↦ ?_, fun h ↦ (hmap fun p hp ↦ (h p hp).lineFeed).2 h⟩
  -- A payload with an LF makes more lines than there are payloads.
  refine (hmap fun p hp ↦ ?_).1 h
  have hlength := congrArg List.length h
  rw [lines, List.length_map, List.length_map, length_rawLines (feed_ends ps),
    count_feed] at hlength
  have hsum : (ps.map (List.count lineFeed)).sum = 0 := by omega
  exact List.count_eq_zero.1
    (List.sum_eq_zero_iff.1 hsum _ (List.mem_map_of_mem hp))

/-- A call that returns has published its payload. -/
theorem payloads_of_completed {m : Message} {v v' : Net} (h : Completed m v v') :
    payloads v'.log = payloads v.log ++ [m.payload] := by
  cases hq : m.qos with
  | atMostOnce =>
    simp only [Completed, published, hq] at h
    rw [h, Net.wrote_log, payloads_append]
    rfl
  | atLeastOnce =>
    obtain ⟨p, a, skipped, -, -, hpings, -, -, -, hlog⟩ := h.events_atLeastOnce hq
    rw [hlog, payloads_append, List.cons_append, payloads_cons_publish, payloads_append,
      payloads_of_onlyPings hpings]
    rfl
  | exactlyOnce =>
    obtain ⟨p, a, q, b, rest, skipped, skipped', -, -, -, -, hpings, hpings', -, -, -, -, hlog⟩ :=
      h.events_exactlyOnce hq
    simp only [hlog, payloads_append, List.cons_append, payloads_cons_publish,
      payloads_of_onlyPings hpings, payloads_of_onlyPings hpings']
    rfl

/-- A run over the lines that returns has published them. -/
theorem payloads_of_publishLines {args : PubArgs} {ps : List (List UInt8)} {v v' : Net}
    (h : publishLines args (ps.map .ok) v = .ok () v') :
    payloads v'.log = payloads v.log ++ ps := by
  induction ps generalizing v with
  | nil =>
    cases h
    exact (List.append_nil _).symm
  | cons p ps ih =>
    obtain ⟨_, z, hz, hrest⟩ := bind_eq_ok.1 h
    rw [ih hrest, payloads_of_completed ((wp_publishOne _ v).of_ok hz), List.append_assoc]
    rfl

/-- **When a feed gets through.** However the run of `sub` ended, `pub` publishes the payloads it
printed, each as it was, exactly if each of them is text on one line. -/
theorem relays_iff (args : Subscribe.SubArgs) (w : Net) (pubArgs : PubArgs) (v : Net)
    (htopic : args.showTopic = false) (hv : v.AcceptsWrites)
    (hacks : Acknowledges pubArgs.qos (relayed args w).length v.inbox) :
    (∃ bytes v', stdout (afterwards (Subscribe.run args) w) = some bytes ∧
      Publish.run { pubArgs with source := .lines (lines bytes) } v = .ok () v' ∧
      payloads v'.log = payloads v.log ++ relayed args w) ↔
    ∀ p ∈ relayed args w, OneLine p := by
  rw [← lines_feed_iff]
  constructor
  · rintro ⟨bytes, v', hbytes, hrun, hpayloads⟩
    rw [stdout_run htopic] at hbytes
    obtain rfl := Option.some.inj hbytes
    rw [run_eq rfl] at hrun
    obtain ⟨u, z, hlines, hdisconnect⟩ := bind_eq_ok.1 hrun
    obtain ⟨ps, hps⟩ := eq_map_ok_of_publishLines hlines
    rw [hps] at hlines
    have hsent : payloads v'.log = payloads z.log := by
      have hwp : wp disconnect (fun _ v' ↦ payloads v'.log = payloads z.log) (fun _ _ ↦ True) z :=
        wp_send _ (by simp [payloads]) fun _ _ ↦ trivial
      exact hwp.of_ok hdisconnect
    rw [hsent, payloads_of_publishLines hlines] at hpayloads
    rw [hps, List.append_cancel_left hpayloads]
  · intro hlines
    have hsource : ({ pubArgs with source := .lines (lines (feed (relayed args w))) } :
        PubArgs).source = .lines ((relayed args w).map .ok) :=
      congrArg PayloadSource.lines hlines
    obtain ⟨v', hrun, hpayloads⟩ := run_acknowledged hsource hv hacks
    exact ⟨_, v', stdout_run htopic w, hrun, hpayloads⟩

/-- The inbound stream of a `sub` that receives two messages. The second ends in CR. -/
def twoMessages : Net :=
  .connected 60 (fun _ ↦ none) [.packet (.suback ⟨1, [.success]⟩),
    .packet (.publish ⟨false, .atMostOnce, false, "t", none, {}, [0x61]⟩),
    .packet (.publish ⟨false, .atMostOnce, false, "t", none, {}, [0x62, 0x0D]⟩)]

/-- `pub` loses the CR of the second message. -/
theorem relays_iff_twoMessages :
    relayed ⟨["t"], .atMostOnce, false, some 2, 0⟩ twoMessages = [[0x61], [0x62, 0x0D]] ∧
    ¬∃ bytes v', stdout (afterwards (Subscribe.run ⟨["t"], .atMostOnce, false, some 2, 0⟩)
        twoMessages) = some bytes ∧
      Publish.run ⟨"x", .lines (lines bytes), .atMostOnce, false, {}⟩
        (Net.connected 60 (fun _ ↦ none) []) = .ok () v' ∧
      payloads v'.log = [[0x61], [0x62, 0x0D]] := by
  have hrelayed : relayed ⟨["t"], .atMostOnce, false, some 2, 0⟩ twoMessages =
      [[0x61], [0x62, 0x0D]] := rfl
  have hiff := relays_iff ⟨["t"], .atMostOnce, false, some 2, 0⟩ twoMessages
    ⟨"x", .once [], .atMostOnce, false, {}⟩ (.connected 60 (fun _ ↦ none) []) rfl (fun _ ↦ rfl)
    (by rw [hrelayed]; trivial)
  rw [hrelayed] at hiff
  exact ⟨hrelayed, fun h ↦ (hiff.1 h [0x62, 0x0D] (by simp)).carriageReturn rfl⟩

end Pipeline

end PulsemqCli
