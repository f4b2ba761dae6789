import PulsemqCli.Client
import Mathlib.Data.List.TakeWhile

/-!
# Receive loops, abstractly

Every receive loop of the program treats the packets it reads one by one: it does something with
the packet, owes the broker at most one reply, and then goes on, is done, or refuses. A `Manner`
is such a treatment, and a `Transcript` is a log that a loop with this manner can produce: PINGREQs
and completed exchanges. A failed write cuts a transcript short, and `Cut` is what is left of the
exchange it interrupted.

`reads` and `finish` are what a loop reads off a given list of stimuli and how it ends, when
nothing goes wrong with its writes. `wp_receive` says that a loop whose body follows a manner
produces a transcript of it, of exactly these packets and with this ending unless a write fails.

The three loops of the program differ in what they do with a packet, in when they are done, and in
which stimuli end them, and in nothing else. Splitting a loop into its manner and the run of a
manner keeps the inductions in this module: a command's own lemmas are case distinctions over one
packet (`Follows`, `Handles`), and everything that is said of whole logs is said of `Produced` logs.

The statements about whole logs are of two kinds. Some follow a packet: it is responded to before
the next one is read (`Produced.split`), and whatever is written is a ping or the reply to the
packet read last (`Transcript.sent_split`). Others count: the packets of a transcript are the ones
read off the stimuli, and its ending is the one these stimuli lead to (`wp_receive`).

A response is the part of a log from one read up to the next. It is defined on logs rather than on
runs, so that it can be looked at in a log that other phases of the command have added to, before or
after.
-/

namespace PulsemqCli

open Reactive Protocol Client

/-- The packets a log received, in order. -/
def receivedPackets (log : List Event) : List Packet :=
  log.filterMap fun
    | .received p => some p
    | _ => none

/-- Packets are received in the order of the log. -/
@[simp]
theorem receivedPackets_append (log log' : List Event) :
    receivedPackets (log ++ log') = receivedPackets log ++ receivedPackets log' :=
  List.filterMap_append

@[simp] theorem receivedPackets_nil : receivedPackets [] = [] := rfl

@[simp]
theorem receivedPackets_cons_received (p : Packet) (log : List Event) :
    receivedPackets (.received p :: log) = p :: receivedPackets log := rfl

@[simp]
theorem receivedPackets_cons_sent (p : Packet) (log : List Event) :
    receivedPackets (.sent p :: log) = receivedPackets log := rfl

@[simp]
theorem receivedPackets_cons_unsent (p : Packet) (log : List Event) :
    receivedPackets (.unsent p :: log) = receivedPackets log := rfl

/-- A packet received in a log was received at some point of it. -/
theorem exists_split_of_receivedPackets {log : List Event} {pre post : List Packet} {p : Packet}
    (h : receivedPackets log = pre ++ p :: post) :
    ∃ pre' post', log = pre' ++ .received p :: post' ∧ receivedPackets pre' = pre := by
  obtain ⟨l₁, l₂, rfl, hpre, hp⟩ := List.filterMap_eq_append_iff.1 h
  obtain ⟨l₃, e, l₄, rfl, hl₃, he, -⟩ := List.filterMap_eq_cons_iff.1 hp
  have he' : e = .received p := by
    cases e with
    | received q =>
      simp only [Option.some.injEq] at he
      rw [he]
    | _ => cases he
  subst he'
  refine ⟨l₁ ++ l₃, l₄, by simp, ?_⟩
  rw [receivedPackets_append, show receivedPackets l₁ = pre from hpre,
    show receivedPackets l₃ = [] from List.filterMap_eq_nil_iff.2 hl₃, List.append_nil]

/-- A part of a log has received a part of the packets. -/
theorem receivedPackets_sublist {es log : List Event} (h : es.Sublist log) :
    (receivedPackets es).Sublist (receivedPackets log) :=
  h.filterMap _

/-- A packet is received where the log says so. -/
theorem mem_receivedPackets {p : Packet} {log : List Event} :
    p ∈ receivedPackets log ↔ .received p ∈ log := by
  constructor
  · intro h
    obtain ⟨a, b, hab⟩ := List.append_of_mem h
    obtain ⟨pre, post, rfl, -⟩ := exists_split_of_receivedPackets hab
    simp
  · intro h
    obtain ⟨a, b, rfl⟩ := List.append_of_mem h
    simp

/-- The events that deliver a message: it is printed, advances `seen`, adds to `received` and
`bytes_received`, or is sampled. -/
def Delivers : Event → Prop
  | .printed .. | .advanced | .counted _ | .sampled _ => True
  | _ => False

/-- The events from one read to the next: what was done about the packet read before them. -/
def response (log : List Event) : List Event :=
  log.takeWhile fun
    | .received _ => false
    | _ => true

@[simp] theorem response_nil : response [] = [] := rfl

/-- A response ends at the next read. -/
@[simp]
theorem response_cons_received (p : Packet) (log : List Event) :
    response (.received p :: log) = [] := rfl

/-- Nothing is read in these events. -/
def Quiet (es : List Event) : Prop :=
  ∀ e ∈ es, ∀ p, e ≠ .received p

/-- Events that read nothing belong to the response before them. -/
theorem Quiet.response_append {es : List Event} (h : Quiet es) (log : List Event) :
    response (es ++ log) = es ++ response log := by
  refine List.takeWhile_append_of_pos fun e he ↦ ?_
  cases e with
  | received p => exact absurd rfl (h _ he p)
  | _ => rfl

/-- Where nothing is read, everything is response. -/
theorem Quiet.response_eq {es : List Event} (h : Quiet es) : response es = es := by
  simpa using h.response_append []

/-- Where nothing is read, no packet is. -/
theorem Quiet.receivedPackets_eq_nil {es : List Event} (h : Quiet es) :
    receivedPackets es = [] := by
  refine List.filterMap_eq_nil_iff.2 fun e he ↦ ?_
  cases e with
  | received p => exact absurd rfl (h _ he p)
  | _ => rfl

/-- What comes after a read is not part of the response before it. -/
theorem response_append_received (log : List Event) (p : Packet) (rest : List Event) :
    response (log ++ .received p :: rest) = response log := by
  induction log with
  | nil => rfl
  | cons e log ih =>
    cases e with
    | received q => rfl
    | _ => exact congrArg (List.cons _) ih

/-- What comes later only adds to a response. -/
theorem response_isPrefix_append (log rest : List Event) :
    response log <+: response (log ++ rest) := by
  induction log with
  | nil => exact List.nil_prefix
  | cons e log ih =>
    cases e with
    | received q => exact List.prefix_refl []
    | _ => exact List.cons_prefix_cons.2 ⟨rfl, ih⟩

/-- A response consists of events of the log. -/
theorem response_subset (log : List Event) : response log ⊆ log :=
  (List.takeWhile_prefix _).subset

/-- A response reads nothing. -/
theorem quiet_response (log : List Event) : Quiet (response log) := by
  intro e he p hp
  rw [hp] at he
  simpa using List.mem_takeWhile_imp he

/-- What is read after a response comes after all of it. -/
theorem sublist_of_mem_response {p : Packet} {e : Event} {log : List Event}
    (he : e ∈ response log) (hp : .received p ∈ log) : [e, .received p].Sublist log := by
  have hsplit : response log ++ log.dropWhile _ = log := List.takeWhile_append_dropWhile
  rw [← hsplit] at hp ⊢
  have hrest := (List.mem_append.1 hp).resolve_left fun h ↦ quiet_response log _ h p rfl
  exact List.Sublist.append (List.singleton_sublist.2 he) (List.singleton_sublist.2 hrest)

/-- An event of `log ++ rest` is one of `log` or one of `rest`. -/
theorem split_at {log rest pre post : List Event} {e : Event}
    (h : log ++ rest = pre ++ e :: post) :
    (∃ post', log = pre ++ e :: post' ∧ post = post' ++ rest) ∨
      ∃ pre', rest = pre' ++ e :: post ∧ pre = log ++ pre' := by
  rcases List.append_eq_append_iff.1 h with ⟨a, hpre, hrest⟩ | ⟨c, hlog, hc⟩
  · exact Or.inr ⟨a, hrest, hpre⟩
  · rcases c with - | ⟨e, c⟩
    · exact Or.inr ⟨[], hc.symm, by simpa using hlog.symm⟩
    · obtain ⟨rfl, hpost⟩ := List.cons_eq_cons.1 hc
      exact Or.inl ⟨c, hlog, hpost⟩

/-- Events that read nothing either belong to the last response or come after a later read. -/
theorem Quiet.response_append_right {es : List Event} (h : Quiet es) (log : List Event) :
    response (log ++ es) = response log ∨ response (log ++ es) = response log ++ es := by
  induction log with
  | nil => exact Or.inr h.response_eq
  | cons e log ih =>
    cases e with
    | received q => exact Or.inl rfl
    | _ => exact ih.imp (congrArg (List.cons _)) (congrArg (List.cons _))

/-- A read in `log ++ es`, where `es` reads nothing, is a read in `log`. -/
theorem Quiet.split_append {es log pre post : List Event} {p : Packet} (h : Quiet es)
    (heq : log ++ es = pre ++ .received p :: post) :
    ∃ post', log = pre ++ .received p :: post' ∧ post = post' ++ es := by
  rcases split_at heq with hlog | ⟨pre', hes, -⟩
  · exact hlog
  · refine absurd rfl (h (.received p) ?_ p)
    rw [hes]
    simp

/-- A read in a log that ends with reading `q` is that read or an earlier one. -/
theorem Quiet.split_append_received {es log pre post : List Event} {p q : Packet} (h : Quiet es)
    (heq : log ++ .received q :: es = pre ++ .received p :: post) :
    (pre = log ∧ p = q ∧ post = es) ∨
      ∃ post', log = pre ++ .received p :: post' ∧ post = post' ++ .received q :: es := by
  obtain ⟨post', hlog, rfl⟩ := h.split_append
    (show (log ++ [.received q]) ++ es = pre ++ .received p :: post by simpa using heq)
  rcases List.eq_nil_or_concat post' with rfl | ⟨init, e, rfl⟩
  · obtain ⟨rfl, hq⟩ := List.append_inj' hlog rfl
    simp only [List.cons.injEq, Event.received.injEq, and_true] at hq
    exact Or.inl ⟨rfl, hq.symm, rfl⟩
  · have hlog' : log ++ [.received q] = (pre ++ .received p :: init) ++ [e] := by
      simpa using hlog
    obtain ⟨rfl, he⟩ := List.append_inj' hlog' rfl
    obtain rfl := List.singleton_inj.1 he
    exact Or.inr ⟨init, rfl, by simp⟩

namespace Receive

/-- What a loop with variables `σ` does after a packet. -/
inductive Verdict (σ : Type) where
  | again (s : σ)
  | done
  | refused (e : Error)

/-- How a receive loop treats what it reads. -/
structure Manner (σ : Type) where
  /-- What it may do with a packet before the reply. -/
  before : Packet → List Event → Prop
  /-- The reply it owes the broker. -/
  reply : Packet → Option Packet
  /-- What it may do with a packet after the reply. -/
  after : Packet → List Event → Prop
  /-- How it goes on after a packet. -/
  verdict : σ → Packet → Verdict σ
  /-- How a stimulus that is not a packet ends it, given the stimuli that follow; `none` where it
  goes on as before. -/
  ending : Stimulus → List Stimulus → Option (Except (Reactive.Stop Error) Unit)
  /-- Nothing is read within an exchange, and nothing is written but the reply. -/
  before_delivers : ∀ p es, before p es → ∀ e ∈ es, Delivers e
  /-- Nothing is read within an exchange, and nothing is written but the reply. -/
  after_delivers : ∀ p es, after p es → ∀ e ∈ es, Delivers e

/-- Doing nothing delivers nothing else. -/
theorem delivers_of_eq_nil (_ : Packet) (es : List Event) (h : es = []) : ∀ e ∈ es, Delivers e := by
  subst h
  exact fun e he ↦ absurd he List.not_mem_nil

variable {σ α : Type} (M : Manner σ)

/-- The events of a completed exchange that started with the packet `p`. -/
def Exchange (p : Packet) (es : List Event) : Prop :=
  ∃ b a, M.before p b ∧ M.after p a ∧
    es = .received p :: b ++ (M.reply p).toList.map .sent ++ a

/-- The logs a loop can produce while its writes succeed. -/
inductive Transcript : List Event → Prop where
  | nil : Transcript []
  | ping {log : List Event} : Transcript log → Transcript (log ++ [.sent .pingreq])
  | exchange {log es : List Event} (p : Packet) :
      Transcript log → Exchange M p es → Transcript (log ++ es)

/-- What is left of an exchange, or of a ping, whose write failed. -/
inductive Cut : List Event → Prop where
  | ping : Cut [.unsent .pingreq]
  | reply {p r : Packet} {b : List Event} : M.before p b → M.reply p = some r →
      Cut (.received p :: b ++ [.unsent r])

/-- The packets a loop reads off a list of stimuli. -/
def reads : σ → List Stimulus → List Packet
  | _, [] => []
  | s, .packet p :: rest =>
    match M.verdict s p with
    | .again s' => p :: reads s' rest
    | .done | .refused _ => [p]
  | s, x :: rest =>
    match M.ending x rest with
    | none => reads s rest
    | some _ => []

/-- The stimuli a loop over `recv` or `recv_keepalive` leaves. -/
def remaining : σ → List Stimulus → List Stimulus
  | _, [] => []
  | s, .packet p :: rest =>
    match M.verdict s p with
    | .again s' => remaining s' rest
    | .done | .refused _ => rest
  | s, x :: rest =>
    match M.ending x rest with
    | none => remaining s rest
    | some _ => rest

/-- How a loop ends on a list of stimuli. -/
def finish : σ → List Stimulus → Except (Reactive.Stop Error) Unit
  | _, [] => .error .waiting
  | s, .packet p :: rest =>
    match M.verdict s p with
    | .again s' => finish s' rest
    | .done => .ok ()
    | .refused e => .error (.failed e)
  | s, x :: rest =>
    match M.ending x rest with
    | none => finish s rest
    | some r => r

/-- What a packet makes of the world when its exchange is completed. -/
def Exchanged (p : Packet) (w w' : Net) : Prop :=
  ∃ es, Exchange M p es ∧ w'.log = w.log ++ es

/-- A loop body follows a manner. On a packet it completes the exchange and goes on as the manner
says, or stops at the reply, whose write failed. On any other stimulus it goes on or ends as the
manner says, and writes a PINGREQ at most. -/
structure Follows (body : σ → Stimulus → Command (σ ⊕ α)) : Prop where
  packet : ∀ (s : σ) (p : Packet) (w : Net), wp (body s (.packet p))
    (fun r w' ↦ w'.inbox = w.inbox ∧ w'.store.fault = w.store.fault ∧ Exchanged M p w w' ∧
      match r with
      | .inl s' => M.verdict s p = .again s'
      | .inr _ => M.verdict s p = .done)
    (fun e w' ↦
      (∃ er, e = .failed er ∧ M.verdict s p = .refused er ∧ Exchanged M p w w') ∨
      (¬w.AcceptsWrites ∧ (∃ er, e = .failed (.mqtt er)) ∧
        ∃ b r, M.before p b ∧ M.reply p = some r ∧
          w'.log = w.log ++ (.received p :: b ++ [.unsent r]))) w
  silent : ∀ (s : σ) (x : Stimulus) (w : Net), (∀ p, x ≠ .packet p) → wp (body s x)
    (fun r w' ↦ w'.store.fault = w.store.fault ∧
      match r with
      | .inl s' => s' = s ∧ M.ending x w.inbox = none ∧ w'.inbox = w.inbox ∧
          (w'.log = w.log ∨ w'.log = w.log ++ [.sent .pingreq])
      | .inr _ => M.ending x w.inbox = some (.ok ()) ∧ w'.log = w.log)
    (fun e w' ↦
      (M.ending x w.inbox = some (.error e) ∧ w'.log = w.log) ∨
      (¬w.AcceptsWrites ∧ (∃ er, e = .failed (.mqtt er)) ∧
        w'.log = w.log ++ [.unsent .pingreq])) w

/-! ### The packets of a transcript -/

variable {M}

/-- An exchange reads its packet and nothing after it. -/
theorem Exchange.exists_quiet {p : Packet} {es : List Event} (h : Exchange M p es) :
    ∃ body, Quiet body ∧ es = .received p :: body := by
  obtain ⟨b, a, hb, ha, rfl⟩ := h
  refine ⟨b ++ (M.reply p).toList.map .sent ++ a, ?_, by simp⟩
  intro e he q
  simp only [List.mem_append, List.mem_map] at he
  rcases he with (he | ⟨r, -, rfl⟩) | he
  · rintro rfl
    exact M.before_delivers p b hb _ he
  · exact nofun
  · rintro rfl
    exact M.after_delivers p a ha _ he

/-- The exchange a failed write cut short reads its packet and nothing after it. -/
theorem quiet_cut {p r : Packet} {b : List Event} (h : M.before p b) :
    Quiet (b ++ [.unsent r]) := by
  intro e he q
  rcases List.mem_append.1 he with he | he
  · rintro rfl
    exact M.before_delivers p b h _ he
  · rw [List.mem_singleton.1 he]
    exact nofun

/-- An exchange has received its packet. -/
theorem Exchange.receivedPackets {p : Packet} {es : List Event} (h : Exchange M p es) :
    receivedPackets es = [p] := by
  obtain ⟨body, hbody, rfl⟩ := h.exists_quiet
  rw [receivedPackets_cons_received, hbody.receivedPackets_eq_nil]

/-- So has one that a failed write has cut short. -/
theorem receivedPackets_cut {p r : Packet} {b : List Event} (h : M.before p b) :
    receivedPackets (.received p :: b ++ [.unsent r]) = [p] := by
  rw [List.cons_append, receivedPackets_cons_received, (quiet_cut h).receivedPackets_eq_nil]

/-! ### Responses

The response to a packet is everything up to the next read. In a transcript that is the rest of its
exchange and the pings after it; in a log that was cut short it may lack the reply that failed. -/

/-- A log a loop can produce, its last write perhaps failed. -/
def Produced (M : Manner σ) (log : List Event) : Prop :=
  Transcript M log ∨ ∃ t c, Transcript M t ∧ Cut M c ∧ log = t ++ c

/-- A response is the packet's exchange, or what a failed write left of it, and pings after it. -/
def Responded (M : Manner σ) (p : Packet) (es : List Event) : Prop :=
  ∃ es' pings, es = es' ++ pings ∧
    (∀ e ∈ pings, e = .sent .pingreq ∨ e = .unsent .pingreq) ∧
    (Exchange M p (.received p :: es') ∨
      ∃ b r, M.before p b ∧ M.reply p = some r ∧ es' = b ++ [.unsent r])

/-- A ping after a response takes nothing from it. -/
theorem Responded.append_ping {p : Packet} {es : List Event} (h : Responded M p es) {e : Event}
    (he : e = .sent .pingreq ∨ e = .unsent .pingreq) : Responded M p (es ++ [e]) := by
  obtain ⟨es', pings, rfl, hpings, hes⟩ := h
  refine ⟨es', pings ++ [e], by simp, fun e' he' ↦ ?_, hes⟩
  rcases List.mem_append.1 he' with he' | he'
  · exact hpings e' he'
  · rwa [List.mem_singleton.1 he']

/-- A ping at the end of a log leaves the responses what they are. -/
theorem responded_append_ping {log : List Event} {e : Event}
    (ih : ∀ {pre post : List Event} {p : Packet}, log = pre ++ .received p :: post →
      Responded M p (response post))
    (he : e = .sent .pingreq ∨ e = .unsent .pingreq) {pre post : List Event} {p : Packet}
    (heq : log ++ [e] = pre ++ .received p :: post) : Responded M p (response post) := by
  have hquiet : Quiet [e] := by
    intro e' he' q
    rw [List.mem_singleton.1 he']
    rcases he with rfl | rfl <;> exact fun h ↦ by cases h
  obtain ⟨post', hlog, rfl⟩ := hquiet.split_append heq
  rcases hquiet.response_append_right post' with hr | hr
  · rw [hr]
    exact ih hlog
  · rw [hr]
    exact (ih hlog).append_ping he

/-- What precedes a read in a transcript is a transcript, and the packet is responded to. -/
theorem Transcript.split {log pre post : List Event} {p : Packet} (h : Transcript M log)
    (heq : log = pre ++ .received p :: post) :
    Transcript M pre ∧ Responded M p (response post) := by
  induction h generalizing pre post p with
  | nil => simp at heq
  | @ping log hlog ih =>
    refine ⟨?_, responded_append_ping (fun h ↦ (ih h).2) (Or.inl rfl) heq⟩
    have hquiet : Quiet [.sent .pingreq] := by simp [Quiet]
    obtain ⟨post', hlog', -⟩ := hquiet.split_append heq
    exact (ih hlog').1
  | @exchange log es q hlog hes ih =>
    obtain ⟨body, hbody, rfl⟩ := hes.exists_quiet
    rcases hbody.split_append_received heq with ⟨rfl, rfl, rfl⟩ | ⟨post', hlog', rfl⟩
    · exact ⟨hlog, post, [], by rw [hbody.response_eq, List.append_nil], by simp, Or.inl hes⟩
    · rw [response_append_received]
      exact ih hlog'

/-- **Every packet a loop reads is responded to before it reads the next one.** -/
theorem Produced.split {log pre post : List Event} {p : Packet} (h : Produced M log)
    (heq : log = pre ++ .received p :: post) :
    Transcript M pre ∧ Responded M p (response post) := by
  rcases h with h | ⟨t, c, ht, hc, rfl⟩
  · exact h.split heq
  · cases hc with
    | ping =>
      refine ⟨?_, responded_append_ping (fun h ↦ (ht.split h).2) (Or.inr rfl) heq⟩
      have hquiet : Quiet [.unsent .pingreq] := by simp [Quiet]
      obtain ⟨post', hlog, -⟩ := hquiet.split_append heq
      exact (ht.split hlog).1
    | @reply q r b hb hreply =>
      have hquiet : Quiet (b ++ [.unsent r]) := quiet_cut hb
      rcases hquiet.split_append_received heq with ⟨rfl, rfl, rfl⟩ | ⟨post', hlog, rfl⟩
      · exact ⟨ht, _, [], by rw [hquiet.response_eq, List.append_nil], by simp,
          Or.inr ⟨b, r, hb, hreply, rfl⟩⟩
      · rw [response_append_received]
        exact ht.split hlog

/-- Whatever a transcript writes is a ping, or the reply to the packet read last. -/
theorem Transcript.sent_split {log pre post : List Event} {r : Packet} (h : Transcript M log)
    (heq : log = pre ++ .sent r :: post) :
    r = .pingreq ∨ ∃ p pre' b, M.reply p = some r ∧ pre = pre' ++ .received p :: b ∧ Quiet b := by
  induction h generalizing pre post with
  | nil => simp at heq
  | ping hlog ih =>
    rcases split_at heq with ⟨post', hpre, -⟩ | ⟨pre', hsent, -⟩
    · exact ih hpre
    · left
      have hmem : Event.sent r ∈ [Event.sent .pingreq] := by
        rw [hsent]
        simp
      simpa using hmem
  | @exchange log es p hlog hes ih =>
    obtain ⟨b, a, hb, ha, rfl⟩ := hes
    rcases split_at heq with ⟨post', hpre, -⟩ | ⟨pre', hes, rfl⟩
    · exact ih hpre
    · right
      -- Within the exchange, only the reply is written.
      have hnotin : ∀ es : List Event, (∀ e ∈ es, Delivers e) → .sent r ∉ es :=
        fun es hes hmem ↦ hes _ hmem
      rcases split_at hes with ⟨post', hreply, -⟩ | ⟨pre'', hafter, -⟩
      · rcases split_at hreply with ⟨post'', hbefore, -⟩ | ⟨pre'', hsent, rfl⟩
        · refine absurd ?_ (hnotin b (M.before_delivers p b hb))
          have hmem : .sent r ∈ .received p :: b := by
            rw [hbefore]
            simp
          simpa using hmem
        · have hquiet : Quiet b := fun e he q hq ↦ by
            rw [hq] at he
            exact M.before_delivers p b hb _ he
          rcases hr : M.reply p with - | r'
          · simp [hr] at hsent
          · rw [hr] at hsent
            rcases pre'' with - | ⟨e, pre''⟩
            · obtain ⟨rfl, -⟩ : r' = r ∧ post' = [] := by simpa using hsent
              exact ⟨p, log, b, hr, by simp, hquiet⟩
            · simp at hsent
      · refine absurd ?_ (hnotin a (M.after_delivers p a ha))
        rw [hafter]
        simp

/-- No write of a transcript failed. -/
theorem Transcript.unsent_notMem {log : List Event} (h : Transcript M log) (p : Packet) :
    .unsent p ∉ log := by
  induction h with
  | nil => simp
  | ping _ ih => simpa using ih
  | exchange q _ hes ih =>
    obtain ⟨b, a, hb, ha, rfl⟩ := hes
    simp only [List.mem_append, List.mem_cons, List.mem_map, reduceCtorEq, false_or, not_or]
    refine ⟨ih, ⟨?_, ?_⟩, ?_⟩
    · exact fun h ↦ M.before_delivers q b hb _ h
    · exact fun ⟨_, _, h⟩ ↦ by cases h
    · exact fun h ↦ M.after_delivers q a ha _ h

/-- In a transcript, the reply to a packet is written before the next one is read. -/
theorem Transcript.reply_mem_response {log pre post : List Event} {p r : Packet}
    (h : Transcript M log) (heq : log = pre ++ .received p :: post) (hr : M.reply p = some r) :
    .sent r ∈ response post := by
  obtain ⟨es', pings, hes, -, ⟨b, c, -, -, hex⟩ | ⟨b, r', -, -, rfl⟩⟩ := (h.split heq).2
  · have hes' : es' = b ++ [.sent r] ++ c := by simpa [hr] using hex
    rw [hes, hes']
    simp
  · refine absurd ?_ (h.unsent_notMem r')
    have hmem : .unsent r' ∈ post := response_subset post (by rw [hes]; simp)
    rw [heq]
    simp [hmem]

/-! ### The packets a list of stimuli holds for a loop

`reads`, `remaining` and `finish` run the manner over the stimuli, without a log and without
failures. What a loop does is compared with them, in `wp_receive`. -/

/-- A stimulus that is no packet is passed over, or ends what is read. -/
theorem reads_silent {x : Stimulus} (hx : ∀ p, x ≠ .packet p) (s : σ) (rest : List Stimulus) :
    reads M s (x :: rest) = if M.ending x rest = none then reads M s rest else [] := by
  rw [reads]
  · split <;> rename_i h <;> simp [h]
  · exact hx

theorem remaining_silent {x : Stimulus} (hx : ∀ p, x ≠ .packet p) (s : σ)
    (rest : List Stimulus) :
    remaining M s (x :: rest) = if M.ending x rest = none then remaining M s rest else rest := by
  rw [remaining]
  · split <;> rename_i h <;> simp [h]
  · exact hx

theorem finish_silent {x : Stimulus} (hx : ∀ p, x ≠ .packet p) (s : σ) (rest : List Stimulus) :
    finish M s (x :: rest) = (M.ending x rest).getD (finish M s rest) := by
  rw [finish]
  · split <;> rename_i h <;> simp [h]
  · exact hx

/-- The packet at the head of the stimuli is always read. -/
theorem singleton_isPrefix_reads (s : σ) (p : Packet) (rest : List Stimulus) :
    [p] <+: reads M s (.packet p :: rest) := by
  rw [reads]
  split
  · exact List.prefix_append [p] _
  · exact List.prefix_refl [p]
  · exact List.prefix_refl [p]

/-- Where no other stimulus can have ended a loop as it ended, the last packet it read did. -/
theorem exists_last_of_finish {r : Except (Reactive.Stop Error) Unit}
    (hwaiting : r ≠ .error .waiting) (hend : ∀ x rest, M.ending x rest ≠ some r)
    {xs : List Stimulus} {s : σ}
    (h : finish M s xs = r) :
    ∃ init q s', reads M s xs = init ++ [q] ∧
      ((M.verdict s' q = .done ∧ r = .ok ()) ∨
        ∃ e, M.verdict s' q = .refused e ∧ r = .error (.failed e)) := by
  induction xs generalizing s with
  | nil => exact absurd h.symm hwaiting
  | cons x rest ih =>
    by_cases hx : ∃ p, x = .packet p
    · obtain ⟨p, rfl⟩ := hx
      rw [finish] at h
      rw [reads]
      rcases hv : M.verdict s p with s' | - | e
      · simp only [hv] at h
        obtain ⟨init, q, s'', hreads, hlast⟩ := ih h
        exact ⟨p :: init, q, s'', congrArg (p :: ·) hreads, hlast⟩
      · simp only [hv] at h
        exact ⟨[], p, s, rfl, Or.inl ⟨hv, h.symm⟩⟩
      · simp only [hv] at h
        exact ⟨[], p, s, rfl, Or.inr ⟨e, hv, h.symm⟩⟩
    · replace hx : ∀ p, x ≠ .packet p := fun p hp ↦ hx ⟨p, hp⟩
      rw [finish_silent hx] at h
      rw [reads_silent hx]
      rcases he : M.ending x rest with - | r'
      · rw [he] at h
        exact ih h
      · rw [he] at h
        exact absurd he (by rw [show r' = r from h]; exact hend x rest)

/-! ### The loop

The invariant of a loop is its `Progress`: that its log so far is a transcript, of the packets that
were read from the stimuli gone by, at the place in the manner where it is. Each round adds an
exchange, or ends the loop, or is cut short. -/

/-- What holds when a receive loop that started in `w` stands before the stimuli `xs`. -/
structure Progress (M : Manner σ) (w : Net) (s₀ : σ) (xs : List Stimulus) (s : σ) (v : Net)
    (t : List Event) : Prop where
  transcript : Transcript M t
  log : v.log = w.log ++ t
  fault : v.store.fault = w.store.fault
  reads : reads M s₀ w.inbox = receivedPackets t ++ Receive.reads M s xs
  finish : finish M s₀ w.inbox = Receive.finish M s xs
  remaining : remaining M s₀ w.inbox = Receive.remaining M s xs

/-- Whether a connection accepts writes depends on its faults alone. -/
theorem not_acceptsWrites_of_fault {v w : Net} (h : v.store.fault = w.store.fault)
    (hv : ¬v.AcceptsWrites) : ¬w.AcceptsWrites :=
  fun hw ↦ hv fun n ↦ by rw [h]; exact hw n

/-- A loop stopped as its manner says, everything it read dealt with. -/
def Ended (M : Manner σ) (s : σ) (r : Except (Reactive.Stop Error) Unit) (w w' : Net) : Prop :=
  finish M s w.inbox = r ∧ ∃ t, Transcript M t ∧ w'.log = w.log ++ t ∧
    receivedPackets t = reads M s w.inbox

/-- A loop stopped at a write that failed. -/
def Broken (M : Manner σ) (s : σ) (e : Reactive.Stop Error) (w w' : Net) : Prop :=
  ¬w.AcceptsWrites ∧ (∃ er, e = .failed (.mqtt er)) ∧ ∃ t c, Transcript M t ∧ Cut M c ∧
    w'.log = w.log ++ t ++ c ∧ (receivedPackets t ++ receivedPackets c) <+: reads M s w.inbox

namespace Progress

variable {w v w' : Net} {s₀ s s' : σ} {x : Stimulus} {rest : List Stimulus} {t es : List Event}
  {p : Packet} {r : Except (Reactive.Stop Error) Unit}

/-- A completed exchange after which the loop goes on. -/
theorem again (h : Progress M w s₀ (.packet p :: rest) s v t) (hr : M.verdict s p = .again s')
    (hes : Exchange M p es) (hlog : w'.log = v.log ++ es)
    (hfault : w'.store.fault = v.store.fault) : Progress M w s₀ rest s' w' (t ++ es) where
  transcript := h.transcript.exchange p hes
  log := by rw [hlog, h.log, List.append_assoc]
  fault := hfault.trans h.fault
  reads := by
    have hreads := h.reads
    simp only [Receive.reads, hr] at hreads
    rw [hreads, receivedPackets_append, hes.receivedPackets, List.append_assoc]
    rfl
  finish := by
    have hfinish := h.finish
    simp only [Receive.finish, hr] at hfinish
    exact hfinish
  remaining := by
    have hremaining := h.remaining
    simp only [Receive.remaining, hr] at hremaining
    exact hremaining

/-- A completed exchange after which the loop is done, or refuses. -/
theorem ended (h : Progress M w s₀ (.packet p :: rest) s v t) (hes : Exchange M p es)
    (hlog : w'.log = v.log ++ es)
    (hr : M.verdict s p = .done ∧ r = .ok () ∨
      ∃ e, M.verdict s p = .refused e ∧ r = .error (.failed e)) : Ended M s₀ r w w' := by
  have hreads := h.reads
  have hfinish := h.finish
  refine ⟨?_, t ++ es, h.transcript.exchange p hes, by rw [hlog, h.log, List.append_assoc], ?_⟩
  · rcases hr with ⟨hr, rfl⟩ | ⟨e, hr, rfl⟩ <;> simpa only [Receive.finish, hr] using hfinish
  · rw [receivedPackets_append, hes.receivedPackets, hreads]
    rcases hr with ⟨hr, -⟩ | ⟨e, hr, -⟩ <;> simp only [Receive.reads, hr]

/-- A stimulus that is not a packet, after which the loop goes on. -/
theorem passed (h : Progress M w s₀ (x :: rest) s v t) (hx : ∀ p, x ≠ .packet p)
    (hend : M.ending x rest = none) (hfault : w'.store.fault = v.store.fault)
    (hlog : w'.log = v.log ∨ w'.log = v.log ++ [.sent .pingreq]) :
    ∃ t', Progress M w s₀ rest s w' t' := by
  have hreads := h.reads
  have hfinish := h.finish
  have hremaining := h.remaining
  rw [reads_silent hx, if_pos hend] at hreads
  rw [finish_silent hx, hend] at hfinish
  rw [remaining_silent hx, if_pos hend] at hremaining
  rcases hlog with hlog | hlog
  · exact ⟨t, h.transcript, hlog.trans h.log, hfault.trans h.fault, hreads, hfinish, hremaining⟩
  · exact ⟨t ++ [.sent .pingreq], h.transcript.ping, by rw [hlog, h.log, List.append_assoc],
      hfault.trans h.fault, by rw [receivedPackets_append, hreads]; simp, hfinish, hremaining⟩

/-- A stimulus that is not a packet and ends the loop. -/
theorem closed (h : Progress M w s₀ (x :: rest) s v t) (hx : ∀ p, x ≠ .packet p)
    (hend : M.ending x rest = some r) (hlog : w'.log = v.log) : Ended M s₀ r w w' := by
  have hreads := h.reads
  have hfinish := h.finish
  rw [reads_silent hx, hend] at hreads
  rw [finish_silent hx, hend] at hfinish
  exact ⟨hfinish, t, h.transcript, hlog.trans h.log, by simpa using hreads.symm⟩

end Progress

/-- **Specification of the receive loops.** A loop whose body follows a manner returns only where
the manner is done, with a transcript of exactly the packets it should have read; when it stops,
it stops as the manner does and with nothing left open, unless one of its writes failed. -/
theorem wp_receive {body : σ → Stimulus → Command (σ ⊕ α)} (hbody : Follows M body) (s : σ)
    (w : Net) :
    wp (react body s)
      (fun _ w' ↦ Ended M s (.ok ()) w w' ∧ w'.store.fault = w.store.fault ∧
        ((∀ x rest, M.ending x rest ≠ some (.ok ())) → w'.inbox = remaining M s w.inbox))
      (fun e w' ↦ Ended M s (.error e) w w' ∨ Broken M s e w w') w := by
  refine wp_react (fun xs s' v ↦ ∃ t, Progress M w s xs s' v t) ?_ ?_
    ⟨[], .nil, by simp, rfl, by simp, rfl, rfl⟩
  · rintro s' v ⟨t, h⟩
    exact Or.inl ⟨h.finish, t, h.transcript, h.log, by simpa [reads] using h.reads.symm⟩
  · rintro x rest s' v ⟨t, h⟩
    by_cases hx : ∃ p, x = .packet p
    · obtain ⟨p, rfl⟩ := hx
      refine (hbody.packet s' p _).mono ?_ ?_
      · rintro r w' ⟨hinbox, hfault, ⟨es, hes, hlog⟩, hr⟩
        rcases r with s'' | a
        · exact ⟨t ++ es, h.again hr hes hlog hfault⟩
        · refine ⟨h.ended hes hlog (Or.inl ⟨hr, rfl⟩), hfault.trans h.fault, fun _ ↦ ?_⟩
          rw [h.remaining, remaining, hr]
          exact hinbox
      · rintro e w' (⟨er, rfl, hr, es, hes, hlog⟩ | ⟨hv, her, b, r, hb, hreply, hlog⟩)
        · exact Or.inl (h.ended hes hlog (Or.inr ⟨er, hr, rfl⟩))
        · refine Or.inr ⟨not_acceptsWrites_of_fault h.fault hv, her, t, _, h.transcript,
            .reply hb hreply, by simpa [h.log] using hlog, ?_⟩
          rw [h.reads, receivedPackets_cut hb, List.prefix_append_right_inj]
          exact singleton_isPrefix_reads s' p rest
    · replace hx : ∀ p, x ≠ .packet p := fun p hp ↦ hx ⟨p, hp⟩
      refine (hbody.silent s' x _ hx).mono ?_ ?_
      · rintro (s'' | a) w' ⟨hfault, hr⟩
        · obtain ⟨rfl, hend, -, hlog⟩ := hr
          exact h.passed hx hend hfault hlog
        · obtain ⟨hend, hlog⟩ := hr
          exact ⟨h.closed hx hend hlog, hfault.trans h.fault, fun hne ↦ absurd hend (hne x rest)⟩
      · rintro e w' (⟨hend, hlog⟩ | ⟨hv, her, hlog⟩)
        · exact Or.inl (h.closed hx hend hlog)
        · refine Or.inr ⟨not_acceptsWrites_of_fault h.fault hv, her, t, _, h.transcript, .ping,
            by simpa [h.log] using hlog, ?_⟩
          rw [h.reads]
          simp

/-- A loop produced a log that reads what its manner reads, as far as its writes succeed. -/
def Produces (M : Manner σ) (s : σ) (w w' : Net) : Prop :=
  ∃ t, Produced M t ∧ w'.log = w.log ++ t ∧ receivedPackets t <+: reads M s w.inbox ∧
    (w.AcceptsWrites → receivedPackets t = reads M s w.inbox)

/-- However a loop that follows a manner ends, it produced a log of the manner. -/
theorem produces {body : σ → Stimulus → Command (σ ⊕ α)} (hbody : Follows M body) (s : σ)
    (w : Net) : Produces M s w (Outcome.world (react body s w)) := by
  have h : wp (react body s) (fun _ ↦ Produces M s w) (fun _ ↦ Produces M s w) w := by
    refine (wp_receive hbody s w).mono ?_ ?_
    · rintro - w' ⟨⟨-, t, ht, hlog, hreads⟩, -, -⟩
      exact ⟨t, Or.inl ht, hlog, hreads ▸ List.prefix_refl _, fun _ ↦ hreads⟩
    · rintro e w' (⟨-, t, ht, hlog, hreads⟩ | ⟨hv, -, t, c, ht, hc, hlog, hreads⟩)
      · exact ⟨t, Or.inl ht, hlog, hreads ▸ List.prefix_refl _, fun _ ↦ hreads⟩
      · exact ⟨t ++ c, Or.inr ⟨t, c, ht, hc, rfl⟩, by rw [hlog, List.append_assoc],
          by rwa [receivedPackets_append], fun hw ↦ absurd hw hv⟩
  exact h.world

/-- A loop that was to read `ps` and the DISCONNECT after it left the loop's log `u` and then
`d`. -/
structure Concluded (M : Manner σ) (ps : List Packet) (w w' : Net) (u d : List Event) : Prop where
  log : w'.log = w.log ++ (u ++ d)
  loop : Produced M u
  disconnect : Quiet d
  reads : receivedPackets u <+: ps

/-- A loop that follows a manner, and then a DISCONNECT: the two return only where the manner is
done, and fail as the loop does or at a write. -/
theorem wp_receive_disconnect {body : σ → Stimulus → Command (σ ⊕ Unit)} (hbody : Follows M body)
    (s : σ) (w : Net) :
    wp (do react body s; disconnect)
      (fun _ w' ↦ finish M s w.inbox = .ok () ∧ ∃ u, Transcript M u ∧
        receivedPackets u = reads M s w.inbox ∧
        Concluded M (reads M s w.inbox) w w' u [.sent (.disconnect .success)])
      (fun e w' ↦
        (finish M s w.inbox = .error e ∧ ∃ u, Transcript M u ∧
          receivedPackets u = reads M s w.inbox ∧
          Concluded M (reads M s w.inbox) w w' u []) ∨
        (¬w.AcceptsWrites ∧ ∃ u d, Concluded M (reads M s w.inbox) w w' u d)) w := by
  rw [wp_bind]
  refine (wp_receive hbody s w).mono ?_ ?_
  · rintro - v ⟨⟨hfinish, u, hu, hlog, hreads⟩, hfault, -⟩
    refine wp_send _ ?_ ?_
    · exact ⟨hfinish, u, hu, hreads, by simp [hlog], Or.inl hu, by simp [Quiet],
        hreads ▸ List.prefix_refl _⟩
    · intro e hv
      exact Or.inr ⟨not_acceptsWrites_of_fault hfault hv, u, [.unsent (.disconnect .success)],
        by simp [hlog], Or.inl hu, by simp [Quiet], hreads ▸ List.prefix_refl _⟩
  · rintro e v (⟨hfinish, u, hu, hlog, hreads⟩ | ⟨hv, -, t, c, ht, hc, hlog, hreads⟩)
    · exact Or.inl ⟨hfinish, u, hu, hreads, by simp [hlog], Or.inl hu, by simp [Quiet],
        hreads ▸ List.prefix_refl _⟩
    · exact Or.inr ⟨hv, t ++ c, [], by simp [hlog], Or.inr ⟨t, c, ht, hc, rfl⟩, by simp [Quiet],
        by rwa [receivedPackets_append]⟩

/-! ### Loops over `recv` and `recv_keepalive` -/

/-- How a stimulus that is not a packet ends a loop over `recv` or `recv_keepalive`. -/
def clientEnding : Stimulus → List Stimulus → Option (Except (Reactive.Stop Error) Unit)
  | .eof, _ => some (.error (.failed (.disconnected "while waiting for a reply")))
  | .readError e, _ => some (.error (.failed (.mqtt e)))
  | _, _ => none

/-- Neither the end of the stream nor a read error is a regular end of a receive loop. -/
@[simp]
theorem clientEnding_ne_ok (x : Stimulus) (rest : List Stimulus) :
    clientEnding x rest ≠ some (.ok ()) := by
  cases x <;> exact nofun

/-- What a loop does with a packet, once it is read, follows a manner. -/
def Handles (M : Manner σ) (k : σ → Packet → Command (σ ⊕ α)) : Prop :=
  ∀ (s : σ) (p : Packet) (w : Net), wp (k s p)
    (fun r w' ↦ w'.inbox = w.inbox ∧ w'.store.fault = w.store.fault ∧
      (∃ b a, M.before p b ∧ M.after p a ∧
        w'.log = w.log ++ (b ++ (M.reply p).toList.map .sent ++ a)) ∧
      match r with
      | .inl s' => M.verdict s p = .again s'
      | .inr _ => M.verdict s p = .done)
    (fun e w' ↦
      (∃ er, e = .failed er ∧ M.verdict s p = .refused er ∧ M.before p [] ∧ M.after p [] ∧
        M.reply p = none ∧ w'.log = w.log) ∨
      (¬w.AcceptsWrites ∧ (∃ er, e = .failed (.mqtt er)) ∧
        ∃ b r, M.before p b ∧ M.reply p = some r ∧ w'.log = w.log ++ (b ++ [.unsent r]))) w

variable {k : σ → Packet → Command (σ ⊕ α)}

/-- A loop over `recv` follows a manner as soon as what it does with a packet does. -/
theorem follows_recv (hend : M.ending = clientEnding) (hk : Handles M k) :
    Follows M fun s ↦ recv (k s) s where
  packet s p w := by
    rw [wp_recv_packet]
    refine (hk s p _).mono ?_ ?_
    · rintro r w' ⟨hinbox, hfault, ⟨b, a, hb, ha, hlog⟩, hr⟩
      exact ⟨hinbox, hfault, ⟨_, ⟨b, a, hb, ha, rfl⟩, by simpa using hlog⟩, hr⟩
    · rintro e w' (⟨er, rfl, hr, hb, ha, hreply, hlog⟩ | ⟨hv, her, b, r, hb, hreply, hlog⟩)
      · exact Or.inl ⟨er, rfl, hr, [.received p], ⟨[], [], hb, ha, by simp [hreply]⟩,
          by simpa using hlog⟩
      · exact Or.inr ⟨hv, her, b, r, hb, hreply, by simpa using hlog⟩
  silent s x w hx := by
    rw [hend]
    cases x with
    | packet p => exact absurd rfl (hx p)
    | idle | stop => exact ⟨rfl, rfl, rfl, rfl, Or.inl rfl⟩
    | eof => exact Or.inl ⟨rfl, rfl⟩
    | readError e => exact Or.inl ⟨rfl, rfl⟩

/-- A loop over `recv_keepalive` follows a manner as soon as what it does with a packet does. -/
theorem follows_recvKeepalive (hend : M.ending = clientEnding) (hk : Handles M k) :
    Follows M fun s ↦ recvKeepalive (k s) s where
  packet := (follows_recv hend hk).packet
  silent s x w hx := by
    cases x with
    | idle =>
      rw [hend]
      simp only [recvKeepalive, wp_bind, wp_load]
      split
      · rw [wp_bind]
        refine wp_send _ ?_ ?_
        · exact ⟨rfl, rfl, rfl, rfl, Or.inr rfl⟩
        · exact fun e hv ↦ Or.inr ⟨hv, ⟨e, rfl⟩, rfl⟩
      · exact ⟨rfl, rfl, rfl, rfl, Or.inl rfl⟩
    | _ => exact (follows_recv hend hk).silent s _ w hx

end Receive

end PulsemqCli
