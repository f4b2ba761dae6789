import PulsemqCli.Bench.Publisher
import PulsemqCli.Bench.Subscriber

/-!
# End-to-end latency

A publisher writes into each payload when it sent it, and a subscriber subtracts that from when it
received it. For a message of the run the sample is the difference of the two instants. For a
payload of anyone else the header can say anything; handling it still counts it, does not panic,
and records nothing that reaches back beyond the warmup.

Two things are kept apart. `sampleOf` is the arithmetic on a payload that is long enough, in natural
numbers and with the checks of the source; `samplePartial` follows the source through its slices and
conversions, each of which could panic, and `samplePartial_eq` says that none does.

The honest path is exact: a message that was built at `sentAt` and is handled later gives the
difference as its sample, modulo the width of a `u64`, or none if it was built in the warmup. A
payload of sixteen bytes or more always decodes, so a stranger's gives a sample, too. The bound
`sampleOf_le` is all that holds of it.
-/

namespace PulsemqCli

namespace Bench

namespace Subscriber

open Reactive Protocol Client BigEndian

/-- An instant an `Instant` can hold. -/
def Representable (instant : ℕ) : Prop :=
  instant < 2 ^ 63 * 10 ^ 9

/-! ### Handling a payload with its panics -/

/-- `xs[a..b]`, which panics out of range. -/
def slice (xs : List UInt8) (a b : ℕ) : Option (List UInt8) :=
  if a ≤ b ∧ b ≤ xs.length then some ((xs.take b).drop a) else none

/-- `later.duration_since(earlier)`, which may panic if `earlier` is the later one. -/
def durationSince (later earlier : ℕ) : Option ℕ :=
  if earlier ≤ later then some (later - earlier) else none

/-- `payload::decode`, where `none` is a panic. -/
def decodePartial (payload : List UInt8) : Option (Option Payload.Header) :=
  if payload.length < Payload.headerLen then some none
  else do
    let elapsed ← slice payload 0 8
    let publisher ← slice payload 8 12
    let seq ← slice payload 12 16
    return some {
      elapsedNs := .ofNat (fromBeBytes elapsed)
      publisher := .ofNat (fromBeBytes publisher)
      seq := .ofNat (fromBeBytes seq) }

/-- `sampleOf`, where `none` is a panic. -/
def samplePartial (t : Timing) (receivedAt : ℕ) (payload : List UInt8) : Option (Option ℕ) := do
  match ← decodePartial payload with
  | none => return none
  | some header =>
    match checkedAdd t.baseline header.elapsedNs.toNat with
    | none => return none
    | some sentAt =>
      if t.warmupUntil ≤ sentAt ∧ sentAt ≤ receivedAt then do
        let elapsed ← durationSince receivedAt sentAt
        return some (elapsed % 2 ^ 64)
      else return none

/-- A slice within the bytes. -/
theorem slice_eq_some {xs : List UInt8} {a b : ℕ} (hab : a ≤ b) (hb : b ≤ xs.length) :
    slice xs a b = some ((xs.drop a).take (b - a)) := by
  rw [slice, if_pos ⟨hab, hb⟩, List.drop_take]

/-- Decoding never panics. -/
theorem decodePartial_eq (payload : List UInt8) :
    decodePartial payload = some (Payload.decode payload) := by
  unfold decodePartial Payload.decode
  by_cases hshort : payload.length < Payload.headerLen
  · rw [if_pos hshort, if_pos hshort]
  · have hlong : 16 ≤ payload.length := not_lt.1 hshort
    rw [if_neg hshort, if_neg hshort, slice_eq_some (by omega) (by omega),
      slice_eq_some (by omega) (by omega), slice_eq_some (by omega) (by omega)]
    rfl

/-- **Timing a payload never panics, whatever its bytes.** -/
theorem samplePartial_eq (t : Timing) (receivedAt : ℕ) (payload : List UInt8) :
    samplePartial t receivedAt payload = some (sampleOf t receivedAt payload) := by
  unfold samplePartial sampleOf
  rw [decodePartial_eq]
  rcases Payload.decode payload with - | header
  · rfl
  simp only [Option.bind_eq_bind, Option.bind_some, Option.pure_def]
  rcases checkedAdd t.baseline header.elapsedNs.toNat with - | sentAt
  · rfl
  by_cases htimed : t.warmupUntil ≤ sentAt ∧ sentAt ≤ receivedAt
  · simp only [if_pos htimed, durationSince, if_pos htimed.2, Option.bind_some]
  · simp only [if_neg htimed]

/-! ### What a sample is -/

theorem checkedAdd_eq_some {instant nanos sum : ℕ} (h : checkedAdd instant nanos = some sum) :
    Representable (instant + nanos) ∧ sum = instant + nanos := by
  unfold checkedAdd at h
  split at h
  next hinstant => exact ⟨hinstant, (Option.some.inj h).symm⟩
  next => cases h

/-- **A sample reaches back no further than the baseline and the end of the warmup.** -/
theorem sampleOf_le {t : Timing} {receivedAt n : ℕ} {payload : List UInt8}
    (h : sampleOf t receivedAt payload = some n) :
    n ≤ receivedAt - max t.baseline t.warmupUntil := by
  unfold sampleOf at h
  rcases hdecode : Payload.decode payload with - | header
  · rw [hdecode] at h
    cases h
  rcases hsent : checkedAdd t.baseline header.elapsedNs.toNat with - | sentAt
  · simp only [hdecode, hsent] at h
    cases h
  simp only [hdecode, hsent] at h
  split at h
  next htimed =>
    obtain ⟨hwarm, hreceived⟩ := htimed
    obtain ⟨-, rfl⟩ := checkedAdd_eq_some hsent
    have hn : n ≤ receivedAt - (t.baseline + header.elapsedNs.toNat) := by
      rw [← Option.some.inj h]
      exact Nat.mod_le _ _
    omega
  next => cases h

/-- What is made of a header whose instant the clock can represent. -/
theorem sampleOf_eq {t : Timing} {receivedAt sentAt : ℕ} {payload : List UInt8}
    {header : Payload.Header} (hdecode : Payload.decode payload = some header)
    (hadd : checkedAdd t.baseline header.elapsedNs.toNat = some sentAt) :
    sampleOf t receivedAt payload =
      if t.warmupUntil ≤ sentAt ∧ sentAt ≤ receivedAt then some ((receivedAt - sentAt) % 2 ^ 64)
      else none := by
  unfold sampleOf
  rw [hdecode]
  simp only [hadd]

/-- **A payload is timed** if it has a header, and that names an instant between the end of the
warmup and the receipt. -/
theorem exists_sampleOf_iff {t : Timing} {receivedAt : ℕ} {payload : List UInt8} :
    (∃ n, sampleOf t receivedAt payload = some n) ↔
      ∃ header, Payload.decode payload = some header ∧
        Representable (t.baseline + header.elapsedNs.toNat) ∧
        t.warmupUntil ≤ t.baseline + header.elapsedNs.toNat ∧
        t.baseline + header.elapsedNs.toNat ≤ receivedAt := by
  constructor
  · rintro ⟨n, hn⟩
    rcases hdecode : Payload.decode payload with - | header
    · simp only [sampleOf, hdecode] at hn
      cases hn
    refine ⟨header, rfl, ?_⟩
    rcases hsent : checkedAdd t.baseline header.elapsedNs.toNat with - | sentAt
    · simp only [sampleOf, hdecode, hsent] at hn
      cases hn
    rw [sampleOf_eq hdecode hsent] at hn
    obtain ⟨hinstant, rfl⟩ := checkedAdd_eq_some hsent
    split at hn
    next htimed => exact ⟨hinstant, htimed⟩
    next => cases hn
  · rintro ⟨header, hdecode, hinstant, htimed⟩
    have hadd : checkedAdd t.baseline header.elapsedNs.toNat =
        some (t.baseline + header.elapsedNs.toNat) := if_pos hinstant
    rw [sampleOf_eq hdecode hadd, if_pos htimed]
    exact ⟨_, rfl⟩

/-- **The sample of a message sent at `sentAt` is the time it took, unless it was sent in the
warmup.** -/
theorem sampleOf_build {t : Timing} {sentAt receivedAt : ℕ} (size : ℕ) (publisher seq : UInt32)
    (hbase : t.baseline ≤ sentAt) (hsent : sentAt ≤ receivedAt)
    (hrun : receivedAt - t.baseline < 2 ^ 64) (hinstant : Representable receivedAt) :
    sampleOf t receivedAt (Payload.build size ⟨.ofNat (sentAt - t.baseline), publisher, seq⟩) =
      if t.warmupUntil ≤ sentAt then some (receivedAt - sentAt) else none := by
  have helapsed : (UInt64.ofNat (sentAt - t.baseline)).toNat = sentAt - t.baseline := by
    rw [UInt64.toNat_ofNat']
    exact Nat.mod_eq_of_lt (by omega)
  have hadd : checkedAdd t.baseline (UInt64.ofNat (sentAt - t.baseline)).toNat = some sentAt := by
    have hsentAt : sentAt < 2 ^ 63 * 10 ^ 9 := lt_of_le_of_lt hsent hinstant
    rw [helapsed, checkedAdd, Nat.add_sub_cancel' hbase]
    exact if_pos hsentAt
  have htook : (receivedAt - sentAt) % 2 ^ 64 = receivedAt - sentAt :=
    Nat.mod_eq_of_lt (by omega)
  rw [sampleOf_eq (Payload.decode_build _ _) hadd, htook]
  by_cases hwarm : t.warmupUntil ≤ sentAt
  · rw [if_pos ⟨hwarm, hsent⟩, if_pos hwarm]
  · rw [if_neg (fun h ↦ hwarm h.1), if_neg hwarm]

/-! ### Handling a PUBLISH -/

/-- What a PUBLISH adds to the log, before its reply. -/
def timed (t : Timing) (receivedAt : ℕ) (p : Publish) : List Event :=
  .counted p.payload.length :: (sampleOf t receivedAt p.payload).toList.map .sampled

/-- An event that changes no counter and records no sample. -/
def Uncounted (e : Event) : Prop :=
  (∀ bytes, e ≠ .counted bytes) ∧ ∀ nanos, e ≠ .sampled nanos

/-- A PUBLISH is counted once and timed once, and the rest is its reply. -/
theorem onPacket_publish (index : ℕ) (t : Timing) (v : Received) (p : Publish) (w : Net) :
    ∃ rest, (Outcome.world (onPacket index t v (.publish p) w)).log =
      w.log ++ timed t (t.clock v.messages) p ++ rest ∧ ∀ e ∈ rest, Uncounted e := by
  refine wp.world (P := fun w' ↦ ∃ rest, w'.log =
    w.log ++ timed t (t.clock v.messages) p ++ rest ∧ ∀ e ∈ rest, Uncounted e) ?_
  simp only [onPacket, wp_bind, wp_emit, wp_record]
  have hlog : w.log ++ [Event.counted p.payload.length] ++
      (sampleOf t (t.clock v.messages) p.payload).toList.map .sampled =
      w.log ++ timed t (t.clock v.messages) p :=
    List.append_assoc _ _ _
  refine wp_sendReply _ ?_ ?_
  · refine ⟨(Subscribe.ackFor p).toList.map .sent, ?_, ?_⟩
    · rw [Net.reply_log, hlog]
    · intro e he
      obtain ⟨r, -, rfl⟩ := List.mem_map.1 he
      exact ⟨fun _ ↦ Event.noConfusion, fun _ ↦ Event.noConfusion⟩
  · intro r e hr hfault
    refine ⟨[.unsent r], ?_, ?_⟩
    · rw [Net.unwrote_log, hlog]
    · intro e he
      rw [List.mem_singleton.1 he]
      exact ⟨fun _ ↦ Event.noConfusion, fun _ ↦ Event.noConfusion⟩

/-- **Handling a PUBLISH.** A message the run's own publisher built at `sentAt` gives the time it
took, unless that was in the warmup. Any payload is handled without a panic, is counted once with
its length and timed once, and gives no sample that reaches back beyond the baseline or the
warmup. -/
theorem handling_exact (index : ℕ) (t : Timing) (v : Received) (p : Publish) (w : Net) :
    (∀ (c : Publisher.Setting) (s : Publisher.State) (id : Option PacketId),
      p.payload = (Publisher.message c s id).payload → c.baseline = t.baseline →
      t.baseline ≤ s.clock → s.clock ≤ t.clock v.messages →
      t.clock v.messages - t.baseline < 2 ^ 64 → Representable (t.clock v.messages) →
      sampleOf t (t.clock v.messages) p.payload =
        if t.warmupUntil ≤ s.clock then some (t.clock v.messages - s.clock) else none) ∧
    samplePartial t (t.clock v.messages) p.payload =
      some (sampleOf t (t.clock v.messages) p.payload) ∧
    (∃ rest, (Outcome.world (onPacket index t v (.publish p) w)).log =
      w.log ++ timed t (t.clock v.messages) p ++ rest ∧ ∀ e ∈ rest, Uncounted e) ∧
    ∀ n, sampleOf t (t.clock v.messages) p.payload = some n →
      n ≤ t.clock v.messages - max t.baseline t.warmupUntil := by
  refine ⟨fun c s id hpayload hbaseline hbase hsent hrun hinstant ↦ ?_, samplePartial_eq _ _ _,
    onPacket_publish index t v p w, fun _ ↦ sampleOf_le⟩
  rw [hpayload, Publisher.message, hbaseline]
  exact sampleOf_build _ _ _ hbase hsent hrun hinstant

end Subscriber

end Bench

end PulsemqCli
