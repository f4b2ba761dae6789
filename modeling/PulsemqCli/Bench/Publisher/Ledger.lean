import PulsemqCli.Bench.Publisher.Window
import PulsemqCli.Library.History

/-!
# What a publisher's run shows, and its ledger

The history of a run is what its two sides did to the messages: which they entered in flight, wrote
and read, and which acknowledgements they looked up. The ledger is what they keep accounts in: the
window, the map, the PUBRELs still to be written, the message being sent, the acknowledgement being
completed, and the counters. Whatever else a step does, it makes one kind of `Entry` in the ledger,
or none; so an invariant of histories and ledgers is an invariant of runs.

The point of the ledger is that there are fewer kinds of entries than steps. Most of the phases a
publisher goes through do not touch the accounts, and their steps make no entry. An invariant about
acknowledgements is shown entry by entry, and `of_run` carries it over to the runs. What an entry
shows of itself is a list of events, so that the invariant can speak of the history as well.

The clock, the stop signal and the packets that are still to be read have no place in it; nothing
that is proved with it is about them.
-/

namespace PulsemqCli

namespace Bench

namespace Publisher

open Protocol Transition

/-! ### Histories

The events of a step are read off its two states: the packets that were written or read are those by
which the two lists differ, and lookups and entries are told by the phases. So a history needs no
record in the state itself. -/

/-- What a run shows of itself. -/
inductive Event where
  /-- A message is entered in flight. -/
  | entered (id : PacketId)
  | wrote (p : Packet)
  | read (x : Inbound)
  /-- `complete_ack` looks for an identifier in the map, and finds it or not. -/
  | lookedUp (id : PacketId) (code : ReasonCode) (found : Bool)
  deriving DecidableEq

/-- The event of a write side that leaves one phase for another. -/
def entries : Phase → Phase → List Event
  | .assigned p _, .writing _ => p.packetId.toList.map .entered
  | _, _ => []

/-- The event of an ack side that leaves one phase for another. -/
def lookups : AckPhase → AckPhase → List Event
  | .completing id code, .freeing _ _ => [.lookedUp id code true]
  | .completing id code, .reading => [.lookedUp id code false]
  | _, _ => []

/-- The events of a step: at most one. -/
def events (s s' : State) : List Event :=
  entries s.phase s'.phase ++ (s'.written.drop s.written.length).map .wrote ++
    (s.inbound.take (s.inbound.length - s'.inbound.length)).map .read ++ lookups s.ack s'.ack

/-- A run of the publisher, with its history. -/
abbrev Run (c : Setting) (clock : ℕ) : List Event → State → Prop :=
  History (Step c) events (initial c clock)

/-- Acts that are performed make a run. -/
theorem exists_run {c : Setting} (clock : ℕ) (as : List Act) (P : List Event → State → Prop)
    [∀ es s, Decidable (P es s)]
    (h : (History.perform (step c) events as ([], initial c clock)).any
      (fun x ↦ P x.1 x.2) = true) :
    ∃ es s, Run c clock es s ∧ P es s := by
  obtain ⟨⟨es, s⟩, hperform, hP⟩ := (Option.any_eq_true _ _).1 h
  exact ⟨es, s, .of_perform (fun _ a _ ha ↦ ⟨a, ha⟩) .start hperform, of_decide_eq_true hP⟩

/-! ### The ledger -/

/-- The message being sent. -/
inductive Stage where
  | idle
  | permitted
  | assigned (p : Publish) (now : ℕ)
  | entered (p : Publish)
  | written (p : Publish)
  | failed (p : Publish)
  /-- The run has returned. -/
  | over

/-- The acknowledgement being completed. -/
inductive Work where
  | idle
  | completing (id : PacketId) (code : ReasonCode)
  | freeing (code : ReasonCode)
  | aborted

def Phase.stage : Phase → Stage
  | .permitted => .permitted
  | .assigned p now => .assigned p now
  | .writing p => .entered p
  | .written p => .written p
  | .failing p _ => .failed p
  | .returned _ => .over
  | _ => .idle

def AckPhase.work : AckPhase → Work
  | .completing id code => .completing id code
  | .freeing _ code => .freeing code
  | .aborted => .aborted
  | _ => .idle

/-- The PUBREL being written. -/
def Phase.releases : Phase → List PacketId
  | .releasing _ id => [id]
  | _ => []

/-- What both sides keep accounts in. -/
structure Ledger where
  permits : ℕ
  inFlight : Finmap fun _ : PacketId ↦ ℕ
  /-- The PUBRELs to be written, the one being written included. -/
  pubrels : List PacketId
  sent : ℕ
  nextPacketId : PacketId
  stage : Stage
  work : Work
  samples : ℕ
  published : ℕ
  acknowledged : ℕ
  publishErrors : ℕ
  refused : ℕ

/-- The ledger of a state. -/
def ledger (s : State) : Ledger where
  permits := s.permits
  inFlight := s.inFlight
  pubrels := s.phase.releases ++ s.pubrels
  sent := s.sent
  nextPacketId := s.nextPacketId
  stage := s.phase.stage
  work := s.ack.work
  samples := s.samples.length
  published := s.published
  acknowledged := s.acknowledged
  publishErrors := s.publishErrors
  refused := s.refused.length

/-- An acknowledgement that ends a message's flow. -/
def terminal : Packet → Option (PacketId × ReasonCode)
  | .puback a | .pubcomp a => some (a.packetId, a.reasonCode)
  | .pubrec a => if a.reasonCode.isError then some (a.packetId, a.reasonCode) else none
  | _ => none

namespace Ledger

/-- The entries in the ledger, with the events they show. -/
inductive Entry (l : Ledger) : List Event → Ledger → Prop where
  | nothing : Entry l [] l
  -- The write side.
  | disconnect : Entry l [.wrote (.disconnect .success)] l
  | release {id : PacketId} {rest : List PacketId} : l.pubrels = id :: rest →
      Entry l [.wrote (.pubrel ⟨id, .success⟩)] { l with pubrels := rest }
  | dropRelease {id : PacketId} {rest : List PacketId} : l.pubrels = id :: rest →
      Entry l [] { l with pubrels := rest }
  | giveUp {id : PacketId} {rest : List PacketId} : l.stage = .idle → l.pubrels = id :: rest →
      Entry l [] { l with pubrels := rest, stage := .over }
  | finish : l.stage = .idle → Entry l [] { l with stage := .over }
  | acquire : l.stage = .idle → l.permits ≠ 0 →
      Entry l [] { l with permits := l.permits - 1, stage := .permitted }
  | assign {p : Publish} (now : ℕ) : l.stage = .permitted →
      p.packetId = some (nextId l.nextPacketId) →
      Entry l [] { l with nextPacketId := nextId l.nextPacketId, stage := .assigned p now }
  | enter {p : Publish} {now : ℕ} {id : PacketId} : l.stage = .assigned p now →
      p.packetId = some id →
      Entry l [.entered id] { l with inFlight := l.inFlight.insert id now, stage := .entered p }
  | write {p : Publish} : l.stage = .entered p →
      Entry l [.wrote (.publish p)] { l with stage := .written p }
  | fail {p : Publish} : l.stage = .entered p →
      Entry l [] { l with publishErrors := l.publishErrors + 1, stage := .failed p }
  | count {p : Publish} : l.stage = .written p →
      Entry l [] { l with published := l.published + 1, sent := l.sent + 1, stage := .idle }
  | forfeit {p : Publish} : l.stage = .failed p →
      Entry l [] { l with
        inFlight := p.packetId.elim l.inFlight l.inFlight.erase
        permits := l.permits + 1
        stage := .over }
  -- The ack side.
  | abort : l.stage = .idle → Entry l [] { l with stage := .over, work := .aborted }
  | ignore {x : Inbound} : l.work = .idle → (∀ p, x = .packet p → terminal p = none) →
      (∀ a, x ≠ .packet (.pubrec a)) → Entry l [.read x] l
  | owe {a : PubAck} : l.work = .idle → a.reasonCode.isError = false →
      Entry l [.read (.packet (.pubrec a))] { l with pubrels := l.pubrels ++ [a.packetId] }
  | hear {p : Packet} {id : PacketId} {code : ReasonCode} : l.work = .idle →
      terminal p = some (id, code) → Entry l [.read (.packet p)] { l with
        refused := if code.isError then l.refused + 1 else l.refused
        work := .completing id code }
  | find {id : PacketId} {code : ReasonCode} : l.work = .completing id code → id ∈ l.inFlight →
      Entry l [.lookedUp id code true] { l with
        inFlight := l.inFlight.erase id
        work := .freeing code }
  | miss {id : PacketId} {code : ReasonCode} : l.work = .completing id code → id ∉ l.inFlight →
      Entry l [.lookedUp id code false] { l with work := .idle }
  | freeRefused {code : ReasonCode} : l.work = .freeing code → code.isError = true →
      Entry l [] { l with permits := l.permits + 1, work := .idle }
  | free {code : ReasonCode} {samples : ℕ} : l.work = .freeing code → code.isError = false →
      samples ≤ l.samples + 1 → Entry l [] { l with
        permits := l.permits + 1
        acknowledged := l.acknowledged + 1
        samples := samples
        work := .idle }

end Ledger

/-! ### Every step makes an entry

The same moves as in `Bench.Publisher.Moves`, sorted by what they do to the ledger. A move that only
changes a phase, a deadline or the clock makes the empty entry. -/

variable {c : Setting} {clock : ℕ} {s s' : State}

@[simp] theorem entries_self (phase : Phase) : entries phase phase = [] := by
  cases phase <;> rfl

@[simp] theorem lookups_self (ack : AckPhase) : lookups ack ack = [] := by
  cases ack <;> rfl

/-- A step of the write side that writes nothing. -/
theorem events_eq_entries (hwritten : s'.written = s.written) (hinbound : s'.inbound = s.inbound)
    (hack : s'.ack = s.ack) : events s s' = entries s.phase s'.phase := by
  simp [events, hwritten, hinbound, hack]

/-- A step of the write side that writes a packet. -/
theorem events_eq_wrote {p : Packet} (hwritten : s'.written = s.written ++ [p])
    (hinbound : s'.inbound = s.inbound) (hack : s'.ack = s.ack)
    (hentries : entries s.phase s'.phase = []) : events s s' = [.wrote p] := by
  simp [events, hwritten, hinbound, hack, hentries]

/-- A step of the ack side that reads nothing. -/
theorem events_eq_lookups (hwritten : s'.written = s.written) (hinbound : s'.inbound = s.inbound)
    (hphase : s'.phase = s.phase) : events s s' = lookups s.ack s'.ack := by
  simp [events, hwritten, hinbound, hphase]

/-- A step of the ack side that reads. -/
theorem events_eq_read {x : Inbound} (hwritten : s'.written = s.written)
    (hinbound : s.inbound = x :: s'.inbound) (hphase : s'.phase = s.phase)
    (hlookups : lookups s.ack s'.ack = []) : events s s' = [.read x] := by
  simp [events, hwritten, hinbound, hphase, hlookups]

/-- The write side's place in the accounts. -/
theorem ledger_stage {phase : Phase} (h : s.phase = phase) : (ledger s).stage = phase.stage :=
  congrArg Phase.stage h

/-- The ack side's. -/
theorem ledger_work {ack : AckPhase} (h : s.ack = ack) : (ledger s).work = ack.work :=
  congrArg AckPhase.work h

/-- The PUBREL being written is the next one to write. -/
theorem ledger_pubrels {d : Drain} {id : PacketId} (h : s.phase = .releasing d id) :
    (ledger s).pubrels = id :: s.pubrels := by
  rw [ledger, h]
  rfl

/-- Leaving the send loop puts the message being sent aside. -/
theorem ledger_leave (s : State) :
    ledger (leave s) = { ledger s with pubrels := s.pubrels, stage := .idle } := by
  rcases leave_phase s with hphase | ⟨_, hphase⟩ <;> rw [ledger, hphase] <;> rfl

namespace Ledger

/-- An entry is determined by what it changes and shows. -/
theorem Entry.congr {l l' l'' : Ledger} {es es' : List Event} (h : Entry l es l')
    (hes : es' = es) (hl : l'' = l') : Entry l es' l'' := by
  rw [hes, hl]
  exact h

/-- A step of the write side that writes nothing. -/
theorem Entry.of_entries {l : Ledger} {es : List Event} (h : Entry (ledger s) es l)
    (hwritten : s'.written = s.written) (hinbound : s'.inbound = s.inbound)
    (hack : s'.ack = s.ack) (hentries : entries s.phase s'.phase = es) (hledger : ledger s' = l) :
    Entry (ledger s) (events s s') (ledger s') :=
  h.congr ((events_eq_entries hwritten hinbound hack).trans hentries) hledger

/-- A step of the ack side that reads nothing. -/
theorem Entry.of_lookups {l : Ledger} {es : List Event} (h : Entry (ledger s) es l)
    (hwritten : s'.written = s.written) (hinbound : s'.inbound = s.inbound)
    (hphase : s'.phase = s.phase) (hlookups : lookups s.ack s'.ack = es)
    (hledger : ledger s' = l) : Entry (ledger s) (events s s') (ledger s') :=
  h.congr ((events_eq_lookups hwritten hinbound hphase).trans hlookups) hledger

/-- What the ack side does with a packet it reads. -/
theorem entry_of_read {p : Packet} {rest : List Inbound} (hack : s.ack = .reading)
    (hinbound : s.inbound = .packet p :: rest) :
    Entry (ledger s) (events s (onPacket { s with inbound := rest } p))
      (ledger (onPacket { s with inbound := rest } p)) := by
  have hwork := ledger_work hack
  have hlookups : lookups s.ack (onPacket { s with inbound := rest } p).ack = [] := by
    rw [hack]
    rfl
  have hrest : (onPacket { s with inbound := rest } p).inbound = rest := by
    unfold onPacket
    split <;> first | rfl | (split <;> rfl)
  have hevents : events s (onPacket { s with inbound := rest } p) = [.read (.packet p)] :=
    events_eq_read (onPacket_written _ _) (by rw [hrest, hinbound]) (onPacket_phase _ _) hlookups
  rw [hevents]
  have hcompleteAck : ∀ id code, terminal p = some (id, code) →
      Entry (ledger s) [.read (.packet p)]
        (ledger (completeAck { s with inbound := rest } id code)) := by
    intro id code hterminal
    refine (Entry.hear hwork hterminal).congr rfl ?_
    unfold completeAck ledger
    rcases code.isError with - | -
    · rfl
    · simp
      rfl
  cases p with
  | puback a => exact hcompleteAck _ _ rfl
  | pubcomp a => exact hcompleteAck _ _ rfl
  | pubrec a =>
    by_cases hcode : a.reasonCode.isError = true
    · simp only [onPacket, hcode]
      exact hcompleteAck _ _ (if_pos hcode)
    · simp only [onPacket, hcode]
      refine (Entry.owe hwork (Bool.eq_false_iff.2 hcode)).congr rfl ?_
      simp only [ledger]
      simp
  | _ => exact .ignore hwork (fun p hp ↦ by cases hp; rfl) (fun a ha ↦ by cases ha)

/-- **Every step makes an entry in the ledger.** -/
theorem entry_of_move (hqos : c.acknowledged = true) (hlabelled : Labelled s)
    (hm : Move c s s') : Entry (ledger s) (events s s') (ledger s') := by
  cases hm with
  | tick | raiseStop | dropStop =>
    exact Entry.nothing.of_entries rfl rfl rfl (entries_self _) rfl
  | deliver x => exact Entry.nothing.congr (by simp [events]) rfl
  | receive hphase hpubrels =>
    refine Entry.nothing.of_entries rfl rfl rfl ?_ ?_
    · rw [hphase]
      rfl
    · simp only [ledger, hphase, hpubrels]
      rfl
  | @drained d hphase =>
    cases d <;>
    · refine Entry.nothing.of_entries rfl rfl rfl ?_ ?_
      · rw [hphase]
        rfl
      · simp only [ledger, hphase]
        rfl
  | quotaLeft hphase | stopUnseen hphase | due hphase | settled hphase | unsettled hphase
  | wake hphase | disconnectFails hphase =>
    refine Entry.nothing.of_entries rfl rfl rfl ?_ ?_
    · rw [hphase]
      rfl
    · simp only [ledger, hphase]
      rfl
  | quotaReached hphase | stopSeen hphase | haltPacing hphase | acquireClosed hphase
  | haltAcquiring hphase =>
    refine Entry.nothing.of_entries rfl rfl rfl ?_ ?_
    · rcases leave_phase _ with hl | ⟨_, hl⟩ <;> rw [hl, hphase] <;> rfl
    · rw [ledger_leave]
      simp only [ledger, hphase]
      rfl
  | release hphase =>
    refine (Entry.release (ledger_pubrels hphase)).congr (events_eq_wrote rfl rfl rfl ?_) ?_
    · rw [hphase]
      rfl
    · simp only [ledger, hphase]
      rfl
  | releaseFails hphase =>
    have hstage := ledger_stage hphase
    refine (Entry.giveUp hstage (ledger_pubrels hphase)).of_entries rfl rfl rfl ?_ ?_
    · rw [hphase]
      rfl
    · simp only [ledger, hphase]
      rfl
  | joined hphase =>
    refine (Entry.finish (ledger_stage hphase)).of_entries rfl rfl rfl ?_ ?_
    · rw [hphase]
      rfl
    · simp only [ledger, hphase]
      rfl
  | @releaseIgnored d _ hphase =>
    cases d <;>
    · refine (Entry.dropRelease (ledger_pubrels hphase)).of_entries rfl rfl rfl ?_ ?_
      · rw [hphase]
        rfl
      · simp only [ledger, hphase]
        rfl
  | disconnect hphase =>
    refine Entry.disconnect.congr (events_eq_wrote rfl rfl rfl ?_) ?_
    · rw [hphase]
      rfl
    · simp only [ledger, hphase]
      rfl
  -- A message on its way.
  | acquire hphase _ _ hpermits =>
    refine (Entry.acquire (ledger_stage hphase) hpermits).of_entries rfl rfl rfl ?_ ?_
    · rw [hphase]
      rfl
    · simp only [ledger, hphase]
      rfl
  | unacknowledged _ hnot | assignNone _ hnot => exact absurd (hqos.symm.trans hnot) nofun
  | insertNone hphase hid => exact absurd ((hlabelled _ _ hphase).symm.trans hid) nofun
  | assign hphase =>
    have hid : (message c s (some (nextId s.nextPacketId))).packetId =
        some (nextId (ledger s).nextPacketId) := rfl
    refine (Entry.assign s.clock (ledger_stage hphase) hid).of_entries rfl rfl rfl ?_ ?_
    · rw [hphase]
      rfl
    · simp only [ledger, hphase]
      rfl
  | insert hphase hid =>
    refine (Entry.enter (ledger_stage hphase) hid).of_entries rfl rfl rfl ?_ ?_
    · rw [hphase, entries, hid]
      rfl
    · simp only [ledger, hphase]
      rfl
  | write hphase =>
    refine (Entry.write (ledger_stage hphase)).congr (events_eq_wrote rfl rfl rfl ?_) ?_
    · rw [hphase]
      rfl
    · simp only [ledger, hphase]
      rfl
  | writeFails hphase =>
    refine (Entry.fail (ledger_stage hphase)).of_entries rfl rfl rfl ?_ ?_
    · rw [hphase]
      rfl
    · simp only [ledger, hphase]
      rfl
  | count hphase =>
    refine (Entry.count (ledger_stage hphase)).of_entries rfl rfl rfl ?_ ?_
    · rw [hphase]
      rfl
    · simp only [ledger, hphase]
      rfl
  | forfeit hphase =>
    refine (Entry.forfeit (ledger_stage hphase)).of_entries rfl rfl rfl ?_ ?_
    · rw [hphase]
      rfl
    · simp only [ledger, hphase, hqos]
      rfl
  -- The ack side.
  | timeout hphase hack =>
    refine (Entry.abort (ledger_stage hphase)).congr ?_ ?_
    · have hentries : entries s.phase (.returned (.error .unfinished)) = [] := by
        rw [hphase]
        rfl
      simp [events, hentries, lookups]
    · simp only [ledger, hphase]
      rfl
  | read hack hinbound => exact entry_of_read hack hinbound
  | readEof hack hinbound | readError hack hinbound =>
    refine (Entry.ignore (ledger_work hack) ?_ ?_).congr (events_eq_read rfl hinbound rfl ?_) ?_
    · intro p hp
      cases hp
    · intro a ha
      cases ha
    · rw [hack]
      rfl
    · simp only [ledger, hack]
      rfl
  | complete hack hlookup =>
    have hmem := Finmap.mem_of_lookup_eq_some hlookup
    refine (Entry.find (ledger_work hack) hmem).of_lookups rfl rfl rfl ?_ rfl
    rw [hack]
    rfl
  | completeUnknown hack hlookup =>
    have hmem := Finmap.lookup_eq_none.1 hlookup
    refine (Entry.miss (ledger_work hack) hmem).of_lookups rfl rfl rfl ?_ rfl
    rw [hack]
    rfl
  | freeRefused hack hcode =>
    refine (Entry.freeRefused (ledger_work hack) hcode).of_lookups rfl rfl rfl ?_ rfl
    rw [hack]
    rfl
  | free hack hcode =>
    refine (Entry.free (ledger_work hack) hcode ?_).of_lookups rfl rfl rfl ?_ rfl
    · split
      · exact (List.length_append ..).le
      · exact Nat.le_succ _
    · rw [hack]
      rfl
  | close hack =>
    refine Entry.nothing.of_lookups rfl rfl rfl ?_ ?_
    · rw [hack]
      rfl
    · simp only [ledger, hack]
      rfl

/-- **An invariant of the ledger's entries holds in every run.** -/
theorem of_run (hqos : c.acknowledged = true) {I : List Event → Ledger → Prop}
    (init : I [] (ledger (initial c clock)))
    (preserved : ∀ es l fs l', I es l → Entry l fs l' → I (es ++ fs) l') {es : List Event}
    (h : Run c clock es s) : I es (ledger s) := by
  refine (h.invariant (I := fun es s ↦ Labelled s ∧ I es (ledger s))
    ⟨fun _ _ h ↦ Phase.noConfusion h, init⟩ ?_).2
  rintro es t u ⟨hlabelled, hI⟩ hstep
  have hm := move_of_step hstep
  exact ⟨hlabelled.move hm, preserved _ _ _ _ hI (entry_of_move hqos hlabelled hm)⟩

/-- A message being assigned has the identifier assigned last. -/
def Labelled (l : Ledger) : Prop :=
  ∀ p now, l.stage = .assigned p now → p.packetId = some l.nextPacketId

/-- A message that is to be entered keeps the identifier it was given. -/
theorem Labelled.entry {l l' : Ledger} {es : List Event} (h : l.Labelled)
    (hentry : Entry l es l') : l'.Labelled := by
  intro p now hstage
  cases hentry with
  | assign now' _ hid =>
    cases hstage
    exact hid
  | acquire | enter | write | fail | count | forfeit | giveUp | finish | abort => cases hstage
  | _ => exact h p now hstage

end Ledger

end Publisher

end Bench

end PulsemqCli
