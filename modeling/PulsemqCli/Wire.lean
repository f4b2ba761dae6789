import PulsemqCli.Library.BigEndian
import PulsemqCli.Library.Framing
import PulsemqCli.Library.Reactive
import PulsemqCli.Protocol

/-!
# `recv_keepalive`, byte by byte

`Client::recv` reads one packet off the socket with `read_packet`, which takes the packet's header,
its length and its body one after another and keeps them in the read itself. `recv_keepalive` puts
a timeout around it: when the keep-alive interval runs out first, the read in progress is dropped,
with the bytes it has taken, a PINGREQ is written, and a new read begins.

`read_packet` is a parameter, as a format: what it makes of the bytes it has taken.

The module instantiates the library on interrupted readers. A chunk that arrives is a list of
symbols, an expiry of the interval is an interruption, and `recv_keepalive` with a keep-alive of 0
has none. `calls` is what a caller makes: one call after the other, for as long as there is
something to arrive. That this is a `scan` of the signals is `returned_calls`.

What was sent is compared with what is returned by position. Without the positions the property
could hold by chance: a reader that has lost a packet's beginning might find the same packet further
on.

The last section has a format of its own, with two packets of a fixed length. It is an example of
what the parameter can be, and gives the theorem a case on either side.
-/

namespace PulsemqCli

namespace Wire

open Reactive Protocol Framing

/-- `read_packet` and `write_packet` on packets `π`, at one size ceiling and protocol version. The
valid packets are the well-formed ones within the ceiling. -/
abbrev PacketFormat (π : Type) := Format UInt8 π MqttError

/-- What can happen at a socket that is read. -/
inductive Arrival where
  | chunk (bytes : List UInt8)
  /-- The keep-alive interval elapses. -/
  | expiry
  deriving DecidableEq, Repr

/-- What the reading side does. -/
inductive Event (π : Type) where
  /-- A call returned this packet, whose read began at this position of the stream. -/
  | returned (position : ℕ) (p : π)
  /-- A PINGREQ was written. -/
  | pinged
  deriving DecidableEq, Repr

/-- The connection's reading side. -/
structure Socket where
  /-- `keep_alive`, in seconds. -/
  keepAlive : UInt16
  /-- The bytes that arrived and were not taken yet. -/
  unread : List UInt8
  /-- How many bytes were taken. -/
  taken : ℕ

/-- A process that reads. -/
abbrev Reading (π α : Type) := Proc Arrival (Event π) Socket MqttError α

/-- The world of a process that reads. -/
abbrev Reader (π : Type) := World Arrival (Event π) Socket

variable {π : Type}

/-- A connection right after its handshake. -/
def connected (keepAlive : UInt16) (arrivals : List Arrival) : Reader π where
  inbox := arrivals
  log := []
  store := { keepAlive, unread := [], taken := 0 }

/-! ### The calls -/

variable (f : PacketFormat π)

/-- Poll a read that has taken the bytes `held`: it goes on with the bytes that are there. -/
def poll (held : List UInt8) : Reading π (List UInt8 ⊕ π) := do
  let c ← load
  match take f held c.unread with
  | .more held' => do
    save { c with unread := [], taken := c.taken + c.unread.length }
    return .inl held'
  | .item p rest => do
    save { c with unread := rest, taken := c.taken + (c.unread.length - rest.length) }
    emit (.returned (c.taken - held.length) p)
    return .inr p
  | .failed e => fail e

/-- One arrival during `recv_keepalive`, where the read in progress has taken `held`. With the
keep-alive off there is no timeout. -/
def await (held : List UInt8) : Arrival → Reading π (List UInt8 ⊕ π)
  | .chunk bytes => do
    let c ← load
    save { c with unread := c.unread ++ bytes }
    poll f held
  | .expiry => do
    if (← load).keepAlive = 0 then return .inl held
    -- The timeout drops the read, and what it holds; pings are taken to succeed.
    emit .pinged
    return .inl []

/-- `Client::recv_keepalive`. -/
def recvKeepalive : Reading π π := do
  match ← poll f [] with
  | .inr p => return p
  | .inl held => react (await f) held

/-- Successive calls of `recv_keepalive`. -/
def calls : ℕ → Reading π Unit
  | 0 => return ()
  | n + 1 => do
    let _ ← recvKeepalive f
    calls n

/-! ### What was sent, and what is returned

The bytes that arrive are the encoding of the packets that were sent. What should be returned is
each packet from its own position, and `signals` is what the arrivals are to the reader. -/

/-- The bytes of all chunks. -/
def bytes (arrivals : List Arrival) : List UInt8 :=
  arrivals.flatMap fun
    | .chunk bs => bs
    | .expiry => []

/-- What the calls of a log returned, with the positions the reads began at. -/
def returned (log : List (Event π)) : List (ℕ × π) :=
  log.filterMap fun
    | .returned position p => some (position, p)
    | .pinged => none

/-- Successive calls return exactly the packets sent, in order. -/
def Returns (keepAlive : UInt16) (arrivals : List Arrival) (sent : List π) : Prop :=
  ∀ n, (returned (Outcome.world (calls f n (connected keepAlive arrivals))).log).map Prod.snd =
    sent.take n

/-- Successive calls return exactly the packets sent, in order, each of them read from its own
position. -/
def Framed (keepAlive : UInt16) (arrivals : List Arrival) (sent : List π) : Prop :=
  ∀ n, returned (Outcome.world (calls f n (connected keepAlive arrivals))).log =
    (entries f 0 sent).take n

/-- The signals of an arrival: an expiry interrupts the read, unless the keep-alive is off. -/
def signals (keepAlive : UInt16) : Arrival → List (Signal UInt8)
  | .chunk bs => bs.map .symbol
  | .expiry => if keepAlive = 0 then [] else [.interrupt]

/-! ### Log and signals -/

/-- What is returned, event by event. -/
@[simp]
theorem returned_append (log log' : List (Event π)) :
    returned (log ++ log') = returned log ++ returned log' :=
  List.filterMap_append

@[simp]
theorem returned_singleton (position : ℕ) (p : π) :
    returned [.returned position p] = [(position, p)] := rfl

@[simp] theorem returned_pinged : returned [(.pinged : Event π)] = [] := rfl

/-- The symbols that are signalled are the bytes that arrived. -/
theorem symbols_signals (keepAlive : UInt16) (arrivals : List Arrival) :
    symbols (arrivals.flatMap (signals keepAlive)) = bytes arrivals := by
  induction arrivals with
  | nil => rfl
  | cons x arrivals ih =>
    rw [List.flatMap_cons, symbols_append, ih]
    cases x with
    | chunk bs =>
      show symbols (bs.map .symbol) ++ _ = bs ++ bytes arrivals
      rw [symbols_map_symbol]
    | expiry =>
      show symbols (if keepAlive = 0 then [] else [.interrupt]) ++ _ = [] ++ bytes arrivals
      split <;> rfl

/-- Every interruption among the signals is an expiry. -/
theorem exists_expiry {keepAlive : UInt16} {arrivals : List Arrival}
    {pre post : List (Signal UInt8)}
    (h : arrivals.flatMap (signals keepAlive) = pre ++ .interrupt :: post) :
    keepAlive ≠ 0 ∧ ∃ a b, arrivals = a ++ .expiry :: b ∧ pre = a.flatMap (signals keepAlive) := by
  induction arrivals generalizing pre with
  | nil => exact absurd h (by simp)
  | cons x arrivals ih =>
    rw [List.flatMap_cons] at h
    rcases List.append_eq_append_iff.1 h with ⟨c, rfl, hrest⟩ | ⟨c, hx, hrest⟩
    · -- The interruption is among the signals of the later arrivals.
      obtain ⟨hne, a, b, rfl, rfl⟩ := ih hrest
      exact ⟨hne, x :: a, b, rfl, List.flatMap_cons.symm⟩
    · rcases c with - | ⟨e, c⟩
      · have hhead : arrivals.flatMap (signals keepAlive) = [] ++ .interrupt :: post := hrest.symm
        obtain ⟨hne, a, b, rfl, ha⟩ := ih hhead
        refine ⟨hne, x :: a, b, rfl, ?_⟩
        rw [List.flatMap_cons, ← ha, hx]
        simp
      · obtain ⟨rfl, -⟩ := List.cons_eq_cons.1 hrest
        cases x with
        | chunk bs =>
          have hmem : Signal.interrupt ∈ bs.map Signal.symbol := by
            rw [show bs.map Signal.symbol = pre ++ .interrupt :: c from hx]
            simp
          obtain ⟨b, -, hb⟩ := List.mem_map.1 hmem
          cases hb
        | expiry =>
          have hsignals : (if keepAlive = 0 then [] else [.interrupt]) =
              pre ++ .interrupt :: c := hx
          split at hsignals
          · exact absurd hsignals (by simp)
          next hne =>
            refine ⟨hne, [], arrivals, rfl, ?_⟩
            rcases pre with - | ⟨e, pre⟩
            · rfl
            · exact absurd hsignals (by simp)

/-! ### The calls -/

/-- Without their positions, entries are the packets. -/
theorem entries_map_snd (position : ℕ) (ps : List π) :
    (entries f position ps).map Prod.snd = ps := by
  induction ps generalizing position with
  | nil => rfl
  | cons p ps ih => exact congrArg (p :: ·) (ih _)

/-- Packets that are returned from their own positions are returned. -/
theorem Framed.returns {keepAlive : UInt16} {arrivals : List Arrival} {sent : List π}
    (h : Framed f keepAlive arrivals sent) : Returns f keepAlive arrivals sent := by
  intro n
  rw [h n, List.map_take, entries_map_snd]

/-- The signals still to come in a world. -/
def pending (w : Reader π) : List (Signal UInt8) :=
  w.store.unread.map .symbol ++ w.inbox.flatMap (signals w.store.keepAlive)

/-- What is still to be returned, where the read in progress has taken `held`. -/
def toReturn (held : List UInt8) (w : Reader π) : List (ℕ × π) :=
  scan f (w.store.taken - held.length) held (pending w)

variable {f} {w : Reader π}

/-- **Specification of `poll`.** It takes from the socket what the reader takes. -/
theorem wp_poll {held : List UInt8} (h : held.length ≤ w.store.taken) :
    wp (poll f held)
      (fun r w' ↦ w'.inbox = w.inbox ∧ w'.store.keepAlive = w.store.keepAlive ∧
        match r with
        | .inl held' => w'.store.unread = [] ∧ held'.length ≤ w'.store.taken ∧
            returned w'.log = returned w.log ∧ toReturn f held w = toReturn f held' w'
        | .inr p => ∃ position, returned w'.log = returned w.log ++ [(position, p)] ∧
            toReturn f held w = (position, p) :: toReturn f [] w')
      (fun _ w' ↦ returned w'.log = returned w.log ∧ toReturn f held w = []) w := by
  have happend := scan_append f (w.store.taken - held.length) held w.store.unread
    (w.inbox.flatMap (signals w.store.keepAlive))
  simp only [poll, wp_bind, wp_load]
  rcases htake : take f held w.store.unread with held' | ⟨p, rest⟩ | e
  · have hlength : held'.length = held.length + w.store.unread.length := by
      rw [eq_append_of_take htake, List.length_append]
    have htaken : w.store.taken + w.store.unread.length - held'.length =
        w.store.taken - held.length := by
      omega
    simp only [htake] at happend
    refine ⟨rfl, rfl, rfl, ?_, rfl, ?_⟩
    · show held'.length ≤ w.store.taken + w.store.unread.length
      omega
    · refine happend.trans ?_
      rw [← htaken]
      rfl
  · have htaken : w.store.taken - held.length +
        (held.length + (w.store.unread.length - rest.length)) =
          w.store.taken + (w.store.unread.length - rest.length) := by
      omega
    simp only [htake, htaken] at happend
    exact ⟨rfl, rfl, w.store.taken - held.length, by simp, happend⟩
  · simp only [htake] at happend
    exact ⟨rfl, happend⟩

/-- What holds while a call that began in `w` waits for `xs`, its read having taken `held`. -/
structure Waits (f : PacketFormat π) (w : Reader π) (xs : List Arrival)
    (held : List UInt8) (v : Reader π) : Prop where
  unread : v.store.unread = []
  held_le : held.length ≤ v.store.taken
  keepAlive : v.store.keepAlive = w.store.keepAlive
  log : returned v.log = returned w.log
  toReturn : toReturn f [] w = Wire.toReturn f held { v with inbox := xs }

/-- **Specification of `recv_keepalive`.** It returns what the reader reads next. -/
theorem wp_recvKeepalive :
    wp (recvKeepalive f)
      (fun p w' ↦ w'.store.keepAlive = w.store.keepAlive ∧
        ∃ position, returned w'.log = returned w.log ++ [(position, p)] ∧
          toReturn f [] w = (position, p) :: toReturn f [] w')
      (fun _ w' ↦ returned w'.log = returned w.log ∧ toReturn f [] w = []) w := by
  rw [recvKeepalive, wp_bind]
  refine (wp_poll (Nat.zero_le _)).mono ?_ fun _ _ h ↦ h
  rintro (held | p) v ⟨hinbox, hkeepAlive, h⟩
  swap
  · exact ⟨hkeepAlive, h⟩
  obtain ⟨hunread, hheld, hlog, hreturn⟩ := h
  -- What the read in progress holds is the reader's, whatever arrives.
  refine wp_react (Waits f w) ?_ ?_ ⟨hunread, hheld, hkeepAlive, hlog, hreturn⟩
  · intro held v h
    refine ⟨h.log, h.toReturn.trans ?_⟩
    show scan f _ held (v.store.unread.map .symbol ++ []) = []
    rw [h.unread]
    rfl
  · intro x rest held v h
    cases x with
    | chunk bs =>
      let v₁ : Reader π :=
        { inbox := rest, log := v.log, store := { v.store with unread := bs } }
      have hreturn : toReturn f [] w = toReturn f held v₁ := by
        rw [h.toReturn, toReturn, toReturn, pending, pending, h.unread]
        rfl
      simp only [await, wp_bind, wp_load, wp_save, h.unread, List.nil_append]
      show wp (poll f held) (Round _ _ rest) _ v₁
      refine (wp_poll (show held.length ≤ v₁.store.taken from h.held_le)).mono ?_ ?_
      · rintro (held' | p) v' ⟨hinbox', hkeepAlive', h'⟩
        · obtain ⟨hunread', hheld', hlog', hreturn'⟩ := h'
          refine ⟨hunread', hheld', hkeepAlive'.trans h.keepAlive, hlog'.trans h.log, ?_⟩
          rw [hreturn, hreturn', ← show v'.inbox = rest from hinbox']
        · obtain ⟨position, hlog', hreturn'⟩ := h'
          refine ⟨hkeepAlive'.trans h.keepAlive, position, ?_, hreturn.trans hreturn'⟩
          rw [hlog', ← h.log]
      · rintro e v' ⟨hlog', hreturn'⟩
        exact ⟨hlog'.trans h.log, hreturn.trans hreturn'⟩
    | expiry =>
      have hreturn := h.toReturn
      simp only [await, wp_bind, wp_load]
      split
      next hoff =>
        refine ⟨h.unread, h.held_le, h.keepAlive, h.log, hreturn.trans ?_⟩
        simp only [toReturn, pending, List.flatMap_cons, signals, if_pos hoff, List.nil_append]
      next hon =>
        refine ⟨h.unread, Nat.zero_le _, h.keepAlive, ?_, hreturn.trans ?_⟩
        · show returned (v.log ++ [.pinged]) = returned w.log
          rw [returned_append, h.log]
          simp
        · have hle := h.held_le
          simp only [toReturn, pending, List.flatMap_cons, signals, if_neg hon, h.unread]
          show scan f (v.store.taken - held.length + held.length) [] _ = _
          rw [Nat.sub_add_cancel hle]
          rfl

/-- Successive calls return what the reader reads, one packet each. -/
theorem returned_calls (n : ℕ) (w : Reader π) :
    returned (Outcome.world (calls f n w)).log = returned w.log ++ (toReturn f [] w).take n := by
  have hwp : wp (calls f n)
      (fun _ w' ↦ returned w'.log = returned w.log ++ (toReturn f [] w).take n)
      (fun _ w' ↦ returned w'.log = returned w.log ++ (toReturn f [] w).take n) w := by
    induction n generalizing w with
    | zero => exact (List.append_nil _).symm
    | succ n ih =>
      rw [calls, wp_bind]
      refine wp_recvKeepalive.mono ?_ ?_
      · rintro p v ⟨-, position, hlog, hreturn⟩
        have hrest : returned w.log ++ (toReturn f [] w).take (n + 1) =
            returned v.log ++ (toReturn f [] v).take n := by
          rw [hreturn, hlog]
          simp
        rw [hrest]
        exact ih v
      · rintro e v ⟨hlog, hreturn⟩
        rw [hlog, hreturn]
        simp
  exact hwp.world

/-- An expiry falls between two packets where it interrupts the reader between two packets, and
with the keep-alive off it interrupts nothing. -/
theorem aligned_signals_iff (keepAlive : UInt16) (sent : List π) (arrivals : List Arrival) :
    Aligned f [] sent (arrivals.flatMap (signals keepAlive)) ↔
      keepAlive = 0 ∨ ∀ before after, arrivals = before ++ .expiry :: after →
        ∃ ps, ps <+: sent ∧ bytes before = encodeAll f ps := by
  constructor
  · intro h
    refine or_iff_not_imp_left.2 fun hon before after heq ↦ ?_
    obtain ⟨ps, hps, hbytes⟩ := h (before.flatMap (signals keepAlive))
      (after.flatMap (signals keepAlive)) (by rw [heq]; simp [signals, hon])
    rw [List.nil_append, symbols_signals] at hbytes
    exact ⟨ps, hps, hbytes⟩
  · intro h pre post heq
    obtain ⟨hon, before, after, harrivals, rfl⟩ := exists_expiry heq
    rw [List.nil_append, symbols_signals]
    exact h.resolve_left hon before after harrivals

/-- **Successive calls return exactly the packets sent, each read from its own position, exactly
if no keep-alive interval elapses within a packet**, or the keep-alive is off. -/
theorem framed_iff (f : PacketFormat π) (keepAlive : UInt16) (sent : List π)
    (arrivals : List Arrival) (hvalid : ∀ p ∈ sent, f.Valid p)
    (hbytes : bytes arrivals = encodeAll f sent) :
    Framed f keepAlive arrivals sent ↔
      keepAlive = 0 ∨ ∀ before after, arrivals = before ++ .expiry :: after →
        ∃ ps, ps <+: sent ∧ bytes before = encodeAll f ps := by
  have hreturned : ∀ n, returned (Outcome.world (calls f n (connected keepAlive arrivals))).log =
      (scan f 0 [] (arrivals.flatMap (signals keepAlive))).take n :=
    fun n ↦ returned_calls n _
  have hscan : scan f 0 [] (arrivals.flatMap (signals keepAlive)) = entries f 0 sent ↔
      Aligned f [] sent (arrivals.flatMap (signals keepAlive)) := by
    refine scan_eq_entries_iff hvalid ?_ ?_
    · rw [List.nil_append, symbols_signals, hbytes]
    · rintro p ps rfl
      exact List.length_pos_of_ne_nil (f.encode_ne_nil p (hvalid p List.mem_cons_self))
  rw [← aligned_signals_iff, ← hscan]
  constructor
  · intro h
    have hall := fun n ↦ (hreturned n).symm.trans (h n)
    refine List.ext_getElem? fun n ↦ ?_
    have hn := congrArg (fun l ↦ l[n]?) (hall (n + 1))
    simpa using hn
  · exact fun h n ↦ (hreturned n).trans (by rw [h])

/-! ### Two packets of v3.1.1

PUBACK and PINGRESP, of four and of two bytes. The reader needs two bytes to know how long a packet
is. -/

/-- The packets whose encoding is spelled out here. -/
def Plain (p : Packet) : Prop :=
  p = .pingresp ∨ ∃ id, p = .puback ⟨id, .success⟩

/-- PUBACK and PINGRESP as v3.1.1 writes them: the type, the length, the identifier. -/
def encodePlain : Packet → List UInt8
  | .pingresp => [0xD0, 0x00]
  | .puback ack => 0x40 :: 0x02 :: BigEndian.toBeBytes 2 ack.packetId.toNat
  | _ => []

/-- Read a type, a length and as many bytes. -/
def parsePlain : List UInt8 → Progress Packet MqttError
  | kind :: length :: body =>
    if body.length < length.toNat then .more
    else if kind = 0xD0 ∧ body = [] then .item .pingresp
    else if kind = 0x40 ∧ body.length = 2 then
      .item (.puback ⟨.ofNat (BigEndian.fromBeBytes body), .success⟩)
    else .failed .malformed
  | _ => .more

/-- A packet that is not complete is no packet. -/
theorem parsePlain_prefix {p : Packet} (hp : Plain p) {bs : List UInt8}
    (hinit : bs <+: encodePlain p) (hne : bs ≠ encodePlain p) : parsePlain bs = .more := by
  rcases bs with - | ⟨kind, - | ⟨length, body⟩⟩
  · rfl
  · rfl
  have hlt : body.length < length.toNat := by
    have hle := lt_of_le_of_ne hinit.length_le fun h ↦ hne (hinit.eq_of_length h)
    obtain ⟨rest, hrest⟩ := hinit
    rcases hp with rfl | ⟨id, rfl⟩
    · simp only [encodePlain, List.length_cons, List.length_nil] at hle
      omega
    · obtain ⟨-, hrest⟩ := List.cons_eq_cons.1 hrest
      obtain ⟨rfl, -⟩ := List.cons_eq_cons.1 hrest
      simp only [encodePlain, List.length_cons, BigEndian.length_toBeBytes] at hle
      show body.length < 2
      omega
  rw [parsePlain, if_pos hlt]

/-- The format of the two packets. -/
def plain : PacketFormat Packet where
  Valid := Plain
  encode := encodePlain
  parse := parsePlain
  encode_ne_nil p hp := by
    rcases hp with rfl | ⟨id, rfl⟩ <;> exact List.cons_ne_nil _ _
  parse_encode p hp := by
    rcases hp with rfl | ⟨id, rfl⟩
    · rfl
    · have hlength := BigEndian.length_toBeBytes 2 id.toNat
      have hid : UInt16.ofNat (BigEndian.fromBeBytes (BigEndian.toBeBytes 2 id.toNat)) = id := by
        have hlt : id.toNat < 256 ^ 2 := id.toNat_lt
        rw [BigEndian.fromBeBytes_toBeBytes, Nat.mod_eq_of_lt hlt]
        exact UInt16.ofNat_toNat
      rw [encodePlain, parsePlain, hid]
      simp [hlength]
  parse_prefix p hp bs := parsePlain_prefix hp

/-- A PUBACK and a PINGRESP in two chunks, the interval elapsing between them, are both returned
where the chunks are the packets. -/
theorem framed_iff_between : Framed plain 60
    [.chunk [0x40, 0x02, 0x00, 0x07], .expiry, .chunk [0xD0, 0x00]]
    [.puback ⟨7, .success⟩, .pingresp] := by
  refine (framed_iff plain 60 _ _ ?_ ?_).2 (Or.inr ?_)
  · intro p hp
    rcases List.mem_cons.1 hp with rfl | hp
    · exact Or.inr ⟨7, rfl⟩
    · exact Or.inl (List.mem_singleton.1 hp)
  · rfl
  · intro before after h
    rcases before with - | ⟨x, - | ⟨y, - | ⟨z, before⟩⟩⟩
    · cases h
    · obtain ⟨rfl, -⟩ := List.cons_eq_cons.1 h
      exact ⟨[.puback ⟨7, .success⟩], ⟨[.pingresp], rfl⟩, rfl⟩
    · cases h
    · simp at h

/-- Where the first chunk is the first byte of the PUBACK, neither is. -/
theorem not_framed_within :
    ¬Returns plain 60 [.chunk [0x40], .expiry, .chunk [0x02, 0x00, 0x07, 0xD0, 0x00]]
      [.puback ⟨7, .success⟩, .pingresp] := by
  intro h
  exact absurd (h 1) (by decide)

end Wire

end PulsemqCli
