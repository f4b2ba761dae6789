import PulsemqCli.Library.Utf8
import PulsemqCli.Publish.Acknowledged

/-!
# The lines of standard input

`pub --stdin-lines` publishes what `BufRead::lines` yields: text, without the LF or CR LF that ends
a line. What `--help` promises are the bytes between one LF and the next. The two differ where a CR
comes before an LF, which is lost, and where bytes are not UTF-8, which ends the run.

`segments` are what `--help` promises, `lines` what the code reads, and `lines_induction` is the
induction they share: on the bytes up to the first LF, and those after it. The last line may have no
LF; an empty one is not yielded then, by either.

A CR before an LF is lost by `chomp`, and only there: a CR at the end of input stays. Bytes that are
not UTF-8 end the run at their line, after the lines before it have been published. Since an LF cuts
UTF-8 text anywhere, all lines are well-formed exactly if the input is.

A run publishes its lines one at a time and waits for each to be acknowledged, so the claim about
the payloads is made for a broker that acknowledges each of them (`Acknowledges`) on a connection
that takes every write. Without that a run may end early whatever the lines are.
-/

namespace PulsemqCli

namespace Publish

open Reactive Protocol Client Utf8

def lineFeed : UInt8 := 0x0A

def carriageReturn : UInt8 := 0x0D

/-- `read_until(b'\n', ..)`, until nothing is left: each line with the LF that ends it. -/
def rawLines : List UInt8 → List (List UInt8)
  | [] => []
  | b :: rest =>
    if b = lineFeed then [b] :: rawLines rest
    else
      match rawLines rest with
      | [] => [[b]]
      | line :: more => (b :: line) :: more

/-- A line without its LF or CR LF. -/
def chomp (line : List UInt8) : List UInt8 :=
  if line.getLast? = some lineFeed then
    if line.dropLast.getLast? = some carriageReturn then line.dropLast.dropLast else line.dropLast
  else line

/-- `Lines::next`, for a line that was read. -/
def nextLine (line : List UInt8) : Except String (List UInt8) :=
  if Valid line then .ok (chomp line) else .error "stream did not contain valid UTF-8"

/-- `BufRead::lines` over the bytes. -/
def lines (bytes : List UInt8) : List (Except String (List UInt8)) :=
  (rawLines bytes).map nextLine

/-- The bytes between one LF and the next, with those after the last LF if there are any. -/
def segments (bytes : List UInt8) : List (List UInt8) :=
  let parts := bytes.splitOn lineFeed
  if parts.getLast? = some [] then parts.dropLast else parts

/-- The payloads that were published. -/
def payloads (log : List Event) : List (List UInt8) :=
  log.filterMap fun
    | .sent (.publish p) => some p.payload
    | _ => none

/-- The inbound stream holds the acknowledgements a call waits for, none of them an error, and after
them what is asked for. -/
def HandshakeThen (qos : QoS) (next : List Stimulus → Prop) (xs : List Stimulus) : Prop :=
  match qos with
  | .atMostOnce => next xs
  | .atLeastOnce => ∃ p a rest, awaitAck xs = some (p, rest) ∧ ackOf p = some a ∧
      a.reasonCode.isError = false ∧ next rest
  | .exactlyOnce => ∃ p a rest q b rest', awaitAck xs = some (p, rest) ∧ ackOf p = some a ∧
      a.reasonCode.isError = false ∧ awaitAck rest = some (q, rest') ∧ ackOf q = some b ∧
        b.reasonCode.isError = false ∧ next rest'

/-- The broker acknowledges `n` calls. -/
def Acknowledges (qos : QoS) : ℕ → List Stimulus → Prop
  | 0 => fun _ ↦ True
  | n + 1 => HandshakeThen qos (Acknowledges qos n)

/-- `pub --stdin-lines` returns without an error, and has published the segments of the input. -/
def PublishesUntouched (args : PubArgs) (bytes : List UInt8) (w : Net) : Prop :=
  ∃ w', run { args with source := .lines (lines bytes) } w = .ok () w' ∧
    payloads w'.log = payloads w.log ++ segments bytes

/-! ### Lines and segments

The two differ line by line, so the equivalence is shown line by line: whether a line is what it is
on the wire depends on its last two bytes, and whether it can be read on its encoding. -/

/-- Induction over the lines of the bytes. -/
theorem lines_induction {P : List UInt8 → Prop} (last : ∀ l, lineFeed ∉ l → P l)
    (line : ∀ l rest, lineFeed ∉ l → P rest → P (l ++ lineFeed :: rest)) (bytes : List UInt8) :
    P bytes := by
  induction hn : bytes.length using Nat.strong_induction_on generalizing bytes with
  | _ n ih =>
    by_cases h : lineFeed ∈ bytes
    · obtain ⟨l, rest, rfl, hl⟩ := List.eq_append_cons_of_mem h
      refine line l rest hl (ih _ ?_ rest rfl)
      rw [← hn, List.length_append, List.length_cons]
      omega
    · exact last bytes h

/-- Bytes without an LF are one line, if there are any. -/
theorem rawLines_of_notMem {l : List UInt8} (hl : lineFeed ∉ l) :
    rawLines l = if l = [] then [] else [l] := by
  induction l with
  | nil => rfl
  | cons b l ih =>
    rw [rawLines, if_neg (List.ne_of_not_mem_cons hl).symm, ih (List.not_mem_of_not_mem_cons hl)]
    by_cases h : l = [] <;> simp [h]

/-- The first LF ends the first line. -/
theorem rawLines_append {l : List UInt8} (hl : lineFeed ∉ l) (rest : List UInt8) :
    rawLines (l ++ lineFeed :: rest) = (l ++ [lineFeed]) :: rawLines rest := by
  induction l with
  | nil => rfl
  | cons b l ih =>
    rw [List.cons_append, rawLines, if_neg (List.ne_of_not_mem_cons hl).symm,
      ih (List.not_mem_of_not_mem_cons hl)]
    rfl

/-- Bytes without an LF are one segment, if there are any. -/
theorem segments_of_notMem {l : List UInt8} (hl : lineFeed ∉ l) :
    segments l = if l = [] then [] else [l] := by
  rw [segments, List.splitOn_eq_singleton hl]
  by_cases h : l = [] <;> simp [h]

/-- The first LF ends the first segment, and is not part of it. -/
theorem segments_append {l : List UInt8} (hl : lineFeed ∉ l) (rest : List UInt8) :
    segments (l ++ lineFeed :: rest) = l :: segments rest := by
  have hne := List.splitOn_ne_nil lineFeed rest
  rw [segments, segments, List.splitOn_append_cons_self_of_not_mem hl,
    List.getLast?_cons_of_ne_nil hne]
  simp only [List.dropLast_cons_of_ne_nil hne]
  split <;> rfl

/-- Only the LF is stripped, unless a CR is before it. -/
theorem chomp_lineFeed_iff {l : List UInt8} :
    chomp (l ++ [lineFeed]) = l ↔ l.getLast? ≠ some carriageReturn := by
  rw [chomp, if_pos List.getLast?_concat, List.dropLast_concat]
  split
  next h =>
    refine iff_of_false (fun hl ↦ ?_) (not_not_intro h)
    have hlength := congrArg List.length hl
    have hne : l ≠ [] := by
      rintro rfl
      cases h
    rw [List.length_dropLast] at hlength
    exact absurd hlength (Nat.sub_one_lt (List.length_eq_zero_iff.not.2 hne)).ne
  next h => exact iff_of_true rfl h

theorem chomp_of_notMem {l : List UInt8} (hl : lineFeed ∉ l) : chomp l = l :=
  if_neg fun h ↦ hl (List.mem_of_getLast? h)

/-- A CR LF begins at the end of the first line, or is further on. -/
theorem infix_append_iff {l : List UInt8} (hl : lineFeed ∉ l) (rest : List UInt8) :
    [carriageReturn, lineFeed] <:+: l ++ lineFeed :: rest ↔
      l.getLast? = some carriageReturn ∨ [carriageReturn, lineFeed] <:+: rest := by
  induction l with
  | nil =>
    rw [List.nil_append, List.infix_cons_iff]
    refine or_congr_left (iff_of_false (fun h ↦ ?_) fun h ↦ ?_)
    · exact absurd (List.cons_prefix_cons.1 h).1 (by decide)
    · cases h
  | cons b l ih =>
    have hl' := List.not_mem_of_not_mem_cons hl
    rw [List.cons_append, List.infix_cons_iff, ih hl', ← or_assoc]
    refine or_congr_left ?_
    rw [List.cons_prefix_cons]
    cases l with
    | nil =>
      simp [eq_comm]
    | cons c l =>
      have hc : lineFeed ≠ c := List.ne_of_not_mem_cons hl'
      simp [List.cons_prefix_cons, hc]

/-- Without an LF there is no CR LF. -/
theorem not_infix_of_notMem {l : List UInt8} (hl : lineFeed ∉ l) :
    ¬[carriageReturn, lineFeed] <:+: l :=
  fun h ↦ hl (h.subset (by simp))

/-- A line is read if it is well-formed, and it is what is left of it. -/
theorem nextLine_eq_ok_iff {line l : List UInt8} :
    nextLine line = .ok l ↔ Valid line ∧ chomp line = l := by
  rw [nextLine]
  split
  next h => simp [h]
  next h => simp [h]

/-- **Lines are segments** exactly if the bytes are UTF-8, and no CR comes before an LF. -/
theorem lines_eq_segments_iff (bytes : List UInt8) :
    lines bytes = (segments bytes).map .ok ↔
      Valid bytes ∧ ¬[carriageReturn, lineFeed] <:+: bytes := by
  induction bytes using lines_induction with
  | last l hl =>
    rw [lines, rawLines_of_notMem hl, segments_of_notMem hl, and_iff_left (not_infix_of_notMem hl)]
    by_cases h : l = []
    · simp [h, valid_nil]
    · simp [h, nextLine_eq_ok_iff, chomp_of_notMem hl]
  | line l rest hl ih =>
    have hvalid : Valid (l ++ [lineFeed]) ↔ Valid l := by
      rw [valid_append_ascii_iff (by decide)]
      exact and_iff_left valid_nil
    rw [lines, rawLines_append hl, segments_append hl, List.map_cons, List.map_cons,
      List.cons_eq_cons, nextLine_eq_ok_iff, hvalid, chomp_lineFeed_iff, ← lines, ih,
      valid_append_ascii_iff (by decide), infix_append_iff hl, not_or]
    tauto

/-- There are as many lines as segments, whatever becomes of them. -/
theorem length_lines (bytes : List UInt8) : (lines bytes).length = (segments bytes).length := by
  rw [lines, List.length_map]
  induction bytes using lines_induction with
  | last l hl => rw [rawLines_of_notMem hl, segments_of_notMem hl]
  | line l rest hl ih =>
    rw [rawLines_append hl, segments_append hl, List.length_cons, List.length_cons, ih]

/-! ### Runs

A broker that acknowledges is described by the stimuli: each handshake in full, and then the next
one. What is beyond the last of them is left alone. -/

theorem payloads_append (log more : List Event) :
    payloads (log ++ more) = payloads log ++ payloads more :=
  List.filterMap_append

theorem payloads_cons_publish (p : Protocol.Publish) (log : List Event) :
    payloads (.sent (.publish p) :: log) = p.payload :: payloads log :=
  rfl

/-- A PINGREQ publishes nothing. -/
theorem payloads_of_onlyPings {events : List Event} (h : OnlyPings events) :
    payloads events = [] := by
  refine List.filterMap_eq_nil_iff.2 fun e he ↦ ?_
  rw [h e he]

theorem HandshakeThen.arrives {qos : QoS} {next : List Stimulus → Prop} {xs : List Stimulus}
    (h : HandshakeThen qos next xs) : HandshakeArrives qos xs := by
  cases qos with
  | atMostOnce => trivial
  | atLeastOnce =>
    obtain ⟨p, a, rest, hp, ha, hok, -⟩ := h
    exact ⟨p, a, rest, hp, ha, hok⟩
  | exactlyOnce =>
    obtain ⟨p, a, rest, q, b, rest', hp, ha, hok, hq, hb, hok', -⟩ := h
    exact ⟨p, a, rest, hp, ha, hok, q, b, rest', hq, hb, hok'⟩

/-- **One line.** A call whose handshake arrives publishes its payload, and leaves what comes after
its acknowledgements. -/
theorem publishOne_acknowledged {m : Message} {next : List Stimulus → Prop} {w : Net}
    (hw : w.AcceptsWrites) (h : HandshakeThen m.qos next w.inbox) :
    ∃ w' : Net, publishOne m w = .ok () w' ∧ payloads w'.log = payloads w.log ++ [m.payload] ∧
      w'.AcceptsWrites ∧ next w'.inbox := by
  have hspec := wp_publishOne m w
  cases hrun : publishOne m w with
  | error e w' => exact absurd h.arrives (hspec.of_error hrun hw)
  | ok u w' =>
    have hdone : Completed m w w' := hspec.of_ok hrun
    refine ⟨w', rfl, ?_⟩
    cases hq : m.qos with
    | atMostOnce =>
      simp only [Completed, published, hq] at hdone
      rw [hq] at h
      subst hdone
      exact ⟨payloads_append _ _, hw, h⟩
    | atLeastOnce =>
      rw [hq] at h
      obtain ⟨p, a, rest, hp, -, -, hnext⟩ := h
      obtain ⟨_, _, skipped, -, -, hpings, hp', -, hfault, hlog⟩ := hdone.events_atLeastOnce hq
      cases hp.symm.trans hp'
      refine ⟨?_, fun n ↦ by rw [hfault]; exact hw n, hnext⟩
      rw [hlog, payloads_append, List.cons_append, payloads_cons_publish, payloads_append,
        payloads_of_onlyPings hpings]
      rfl
    | exactlyOnce =>
      rw [hq] at h
      obtain ⟨p, a, rest, q, b, rest', hp, -, -, hb, -, -, hnext⟩ := h
      obtain ⟨_, _, _, _, left, skipped, skipped', -, -, -, -, hpings, hpings', hp', hb', -, hfault,
        hlog⟩ := hdone.events_exactlyOnce hq
      cases hp.symm.trans hp'
      cases hb.symm.trans hb'
      refine ⟨?_, fun n ↦ by rw [hfault]; exact hw n, hnext⟩
      simp only [hlog, payloads_append, List.cons_append, payloads_cons_publish,
        payloads_of_onlyPings hpings, payloads_of_onlyPings hpings']
      rfl

/-- All lines, on a connection whose broker acknowledges them. -/
theorem publishLines_acknowledged {args : PubArgs} {ps : List (List UInt8)} {w : Net}
    (hw : w.AcceptsWrites) (h : Acknowledges args.qos ps.length w.inbox) :
    ∃ w' : Net, publishLines args (ps.map .ok) w = .ok () w' ∧
      payloads w'.log = payloads w.log ++ ps ∧ w'.AcceptsWrites := by
  induction ps generalizing w with
  | nil => exact ⟨w, rfl, by simp, hw⟩
  | cons p ps ih =>
    obtain ⟨v, hv, hpayload, hvw, hacks⟩ :=
      publishOne_acknowledged (m := args.message p) hw h
    obtain ⟨w', hw', hpayloads, hwrites⟩ := ih hvw hacks
    refine ⟨w', ?_, ?_, hwrites⟩
    · rw [List.map_cons, publishLines, bind_eq, hv]
      exact hw'
    · rw [hpayloads, hpayload, List.append_assoc]
      rfl

/-- A line that cannot be read ends the run. -/
theorem eq_map_ok_of_publishLines {args : PubArgs} {ls : List (Except String (List UInt8))}
    {w w' : Net} (h : publishLines args ls w = .ok () w') :
    ∃ ps : List (List UInt8), ls = ps.map .ok := by
  induction ls generalizing w with
  | nil => exact ⟨[], rfl⟩
  | cons line ls ih =>
    cases line with
    | error e => cases h
    | ok p =>
      obtain ⟨u, v, hv, hrest⟩ := bind_eq_ok.1 h
      obtain ⟨ps, rfl⟩ := ih hrest
      exact ⟨p :: ps, rfl⟩

/-- The command reads its lines, publishes them and disconnects. -/
theorem run_eq {args : PubArgs} {ls : List (Except String (List UInt8))}
    (h : args.source = .lines ls) :
    run args = publishLines args ls >>= fun _ ↦ disconnect := by
  rw [run, h]

/-- What the command publishes, where each of its messages is acknowledged. -/
theorem run_acknowledged {args : PubArgs} {ps : List (List UInt8)} {w : Net}
    (hargs : args.source = .lines (ps.map .ok)) (hw : w.AcceptsWrites)
    (h : Acknowledges args.qos ps.length w.inbox) :
    ∃ w' : Net, run args w = .ok () w' ∧ payloads w'.log = payloads w.log ++ ps := by
  obtain ⟨v, hv, hpayloads, hwrites⟩ := publishLines_acknowledged hw h
  refine ⟨v.wrote (.disconnect .success), ?_, ?_⟩
  · rw [run_eq hargs, bind_eq, hv]
    simp only
    rw [disconnect, send_eq, hwrites]
  · rw [Net.wrote_log, payloads_append, hpayloads]
    exact List.append_nil _

/-- **When `pub --stdin-lines` publishes each line untouched.** On a connection that takes every
write, and with a broker that acknowledges everything: exactly if the input is UTF-8, and no CR
comes before an LF. -/
theorem publishesUntouched_iff (args : PubArgs) (bytes : List UInt8) (w : Net)
    (hw : w.AcceptsWrites) (hacks : Acknowledges args.qos (segments bytes).length w.inbox) :
    PublishesUntouched args bytes w ↔ Valid bytes ∧ ¬[0x0D, 0x0A] <:+: bytes := by
  refine Iff.trans ?_ (lines_eq_segments_iff bytes)
  have hread : ∀ ps : List (List UInt8), lines bytes = ps.map .ok →
      ∃ w' : Net, run { args with source := .lines (lines bytes) } w = .ok () w' ∧
        payloads w'.log = payloads w.log ++ ps := by
    intro ps hps
    have hlength : ps.length = (segments bytes).length := by
      rw [← length_lines, hps, List.length_map]
    exact run_acknowledged (congrArg PayloadSource.lines hps) hw (hlength ▸ hacks)
  constructor
  · rintro ⟨w', hrun, hpayloads⟩
    have hlines := hrun
    rw [run_eq rfl] at hlines
    obtain ⟨u, v, hv, -⟩ := bind_eq_ok.1 hlines
    obtain ⟨ps, hps⟩ := eq_map_ok_of_publishLines hv
    obtain ⟨w'', hrun', hpublished⟩ := hread ps hps
    cases hrun.symm.trans hrun'
    rw [hpublished] at hpayloads
    rw [hps, List.append_cancel_left hpayloads]
  · exact fun hlines ↦ hread _ hlines

/-- Two lines, and the second without an LF, at QoS 1. -/
theorem publishesUntouched_iff_two :
    PublishesUntouched ⟨"x", .once [], .atLeastOnce, false, {}⟩ [0x61, 0x0A, 0x62]
      (.connected 60 (fun _ ↦ none)
        [.packet (.puback ⟨1, .success⟩), .packet (.puback ⟨2, .success⟩)]) := by
  have hsegments : (segments [0x61, 0x0A, 0x62]).length = 2 := by decide
  refine (publishesUntouched_iff _ _ _ (fun _ ↦ rfl) ?_).2
    ⟨⟨['a', '\n', 'b'], by decide⟩, by decide⟩
  rw [hsegments]
  exact ⟨_, _, _, rfl, rfl, rfl, _, _, _, rfl, rfl, rfl, trivial⟩

/-- A line that ends with CR LF is published without its CR. -/
theorem not_publishesUntouched_crlf :
    ¬PublishesUntouched ⟨"x", .once [], .atMostOnce, false, {}⟩ [0x61, 0x0D, 0x0A]
      (.connected 60 (fun _ ↦ none) []) := by
  have hvalid : Valid [0x61, 0x0D, 0x0A] := ⟨['a', '\r', '\n'], by decide⟩
  have hlines : lines [0x61, 0x0D, 0x0A] = [.ok [0x61]] := congrArg (· :: []) (if_pos hvalid)
  rintro ⟨w', hrun, hpayloads⟩
  rw [hlines] at hrun
  cases hrun
  exact absurd hpayloads (by decide)

end Publish

end PulsemqCli
