import PulsemqCli.Library.BigEndian

/-!
# The measurement header of a benchmark payload

The first sixteen bytes of every benchmark payload: the nanoseconds since the run's baseline, the
publisher and the sequence number, big-endian.

`build` and `decode` fix the offsets, the widths and the order of the bytes independently of each
other. That they agree is shown in both directions, for every header and every string of bytes.
What `build` computes and when it panics are kept apart: `build` here is the payload, and
`buildPartial` follows the source statement by statement, with its panics.

A `Vec` holds at most `isize::MAX` bytes, and `vec![0u8; n]` panics beyond that: this is `zeroed`,
and the only way in which building a payload fails. That an allocation of an acceptable size may
abort the process for want of memory is left out.
-/

namespace PulsemqCli

namespace Bench

namespace Payload

open BigEndian

/-- Bytes occupied by the header at the front of every benchmark payload. -/
def headerLen : ℕ := 16

structure Header where
  /-- Nanoseconds since the run's baseline. -/
  elapsedNs : UInt64
  publisher : UInt32
  seq : UInt32
  deriving DecidableEq, Repr

/-- Build a payload of `size` bytes carrying `header`; a `size` below `headerLen` yields a
`headerLen` payload rather than a truncated header. -/
def build (size : ℕ) (header : Header) : List UInt8 :=
  toBeBytes 8 header.elapsedNs.toNat ++ toBeBytes 4 header.publisher.toNat ++
    toBeBytes 4 header.seq.toNat ++ List.replicate (max size headerLen - headerLen) 0

/-- Read the header back. `none` when the payload is too short to carry one. -/
def decode (payload : List UInt8) : Option Header :=
  if payload.length < headerLen then none
  else some {
    elapsedNs := .ofNat (fromBeBytes (payload.take 8))
    publisher := .ofNat (fromBeBytes ((payload.drop 8).take 4))
    seq := .ofNat (fromBeBytes ((payload.drop 12).take 4)) }

@[simp]
theorem length_build (size : ℕ) (header : Header) :
    (build size header).length = max size headerLen := by
  simp only [build, List.length_append, length_toBeBytes, List.length_replicate]
  have : headerLen = 16 := rfl
  omega

/-- **The header can be read back from every payload built with it.** -/
theorem decode_build (size : ℕ) (header : Header) : decode (build size header) = some header := by
  obtain ⟨elapsedNs, publisher, seq⟩ := header
  have hlong : ¬(build size ⟨elapsedNs, publisher, seq⟩).length < headerLen := by
    rw [length_build]
    omega
  have helapsed := elapsedNs.toNat_lt
  have hpublisher := publisher.toNat_lt
  have hseq := seq.toNat_lt
  have htake : ∀ (k n : ℕ) (rest : List UInt8), (toBeBytes k n ++ rest).take k = toBeBytes k n :=
    fun k n rest ↦ List.take_left' (length_toBeBytes k n)
  have hdrop : ∀ (k n : ℕ) (rest : List UInt8), (toBeBytes k n ++ rest).drop k = rest :=
    fun k n rest ↦ List.drop_left' (length_toBeBytes k n)
  have hsplit : ∀ xs : List UInt8, xs.drop 12 = (xs.drop 8).drop 4 := fun xs ↦ by
    rw [List.drop_drop]
  rw [decode, if_neg hlong]
  simp only [build, List.append_assoc, hsplit, htake, hdrop, fromBeBytes_toBeBytes]
  rw [Nat.mod_eq_of_lt (by omega), Nat.mod_eq_of_lt (by omega), Nat.mod_eq_of_lt (by omega)]
  simp only [UInt64.ofNat_toNat, UInt32.ofNat_toNat]

/-! ### Building at offsets -/

/-- `buf[a..b].copy_from_slice(src)`, which panics out of range and where the lengths differ. -/
def copyFromSlice (buf : List UInt8) (a b : ℕ) (src : List UInt8) : Option (List UInt8) :=
  if a ≤ b ∧ b ≤ buf.length ∧ src.length = b - a then some (buf.take a ++ src ++ buf.drop b)
  else none

/-- `isize::MAX`, the most bytes that a `Vec` can hold. -/
def maxVecLen : ℕ := 2 ^ 63 - 1

/-- `vec![0u8; n]`, which panics where the capacity overflows. -/
def zeroed (n : ℕ) : Option (List UInt8) :=
  if n ≤ maxVecLen then some (List.replicate n 0) else none

/-- `payload::build`, where `none` is a panic. -/
def buildPartial (size : ℕ) (header : Header) : Option (List UInt8) := do
  let buf ← zeroed (max size headerLen)
  let buf ← copyFromSlice buf 0 8 (toBeBytes 8 header.elapsedNs.toNat)
  let buf ← copyFromSlice buf 8 12 (toBeBytes 4 header.publisher.toNat)
  copyFromSlice buf 12 16 (toBeBytes 4 header.seq.toNat)

/-- Copying onto the zeros behind what was written so far. -/
theorem copyFromSlice_replicate {done src : List UInt8} {a b m n : ℕ} (ha : done.length = a)
    (hb : a + src.length = b) (hn : n = src.length + m) :
    copyFromSlice (done ++ List.replicate n 0) a b src =
      some (done ++ src ++ List.replicate m 0) := by
  subst ha hb hn
  have hcond : done.length ≤ done.length + src.length ∧
      done.length + src.length ≤ (done ++ List.replicate (src.length + m) (0 : UInt8)).length ∧
      src.length = done.length + src.length - done.length := by
    rw [List.length_append, List.length_replicate]
    omega
  have hdrop : (done ++ List.replicate (src.length + m) (0 : UInt8)).drop
      (done.length + src.length) = List.replicate m 0 := by
    rw [List.drop_length_add_append, List.drop_replicate, Nat.add_sub_cancel_left]
  rw [copyFromSlice, if_pos hcond, List.take_left, hdrop]

/-- A payload has room for its header; it is too long exactly if its size is. -/
theorem zeroed_payload (size : ℕ) : zeroed (max size headerLen) =
    if size ≤ maxVecLen then some (List.replicate (max size headerLen) 0) else none := by
  have hheader : headerLen ≤ maxVecLen := by decide
  rw [zeroed]
  simp only [max_le_iff, and_iff_left hheader]

/-- **Building panics exactly where the buffer cannot be had**, and its offsets, which are never
out of range, put the fields next to each other. -/
theorem buildPartial_eq (size : ℕ) (header : Header) :
    buildPartial size header = if size ≤ maxVecLen then some (build size header) else none := by
  rw [buildPartial, zeroed_payload]
  by_cases hsize : size ≤ maxVecLen
  swap
  · rw [if_neg hsize, if_neg hsize]
    rfl
  rw [if_pos hsize, if_pos hsize, Option.bind_eq_bind, Option.bind_some]
  obtain ⟨n, hn⟩ : ∃ n, max size headerLen = n + 16 := Nat.exists_eq_add_of_le' (le_max_right ..)
  have hcopy : ∀ (k x m a b : ℕ) (done : List UInt8), done.length = a → a + k = b →
      copyFromSlice (done ++ List.replicate (k + m) 0) a b (toBeBytes k x) =
        some (done ++ toBeBytes k x ++ List.replicate m 0) := fun k x m a b done ha hb ↦
    copyFromSlice_replicate ha (by rw [length_toBeBytes, hb]) (by rw [length_toBeBytes])
  have helapsed := hcopy 8 header.elapsedNs.toNat (4 + (4 + n)) 0 8 [] rfl rfl
  have hpublisher := hcopy 4 header.publisher.toNat (4 + n) 8 12
    ([] ++ toBeBytes 8 header.elapsedNs.toNat) (by simp) rfl
  have hseq := hcopy 4 header.seq.toNat n 12 16
    ([] ++ toBeBytes 8 header.elapsedNs.toNat ++ toBeBytes 4 header.publisher.toNat) (by simp) rfl
  have hzeros : n + 16 = 8 + (4 + (4 + n)) := by omega
  rw [build, hn, hzeros, ← List.nil_append (List.replicate _ 0), helapsed]
  simp only [Option.bind_some, hpublisher, hseq]
  rw [← hzeros, show n + 16 - headerLen = n from rfl]
  rfl

/-! ### The whole format -/

/-- What can be decoded is at least a header long. -/
theorem decode_eq_some_iff {payload : List UInt8} :
    (∃ header, decode payload = some header) ↔ headerLen ≤ payload.length := by
  unfold decode
  split
  next hshort => simpa using hshort
  next hlong => simpa using hlong

/-- **Building again what was decoded** keeps the header's bytes and clears the others. -/
theorem build_of_decode {payload : List UInt8} {header : Header}
    (h : decode payload = some header) :
    build payload.length header =
      payload.take headerLen ++ List.replicate (payload.length - headerLen) 0 := by
  have hlong : 16 ≤ payload.length := decode_eq_some_iff.1 ⟨header, h⟩
  rw [decode, if_neg (show ¬payload.length < headerLen from not_lt.2 hlong)] at h
  obtain rfl := Option.some.inj h
  -- A field is written back as it was read, for it is as wide as its type.
  have hfield : ∀ k a : ℕ, a + k ≤ payload.length →
      toBeBytes k (fromBeBytes ((payload.drop a).take k) % 256 ^ k) =
        (payload.drop a).take k := by
    intro k a hk
    have hlength : ((payload.drop a).take k).length = k := by
      rw [List.length_take, List.length_drop]
      omega
    have hlt := fromBeBytes_lt ((payload.drop a).take k)
    have hback := toBeBytes_fromBeBytes ((payload.drop a).take k)
    rw [hlength] at hlt hback
    rw [Nat.mod_eq_of_lt hlt, hback]
  have helapsed : toBeBytes 8 (fromBeBytes (payload.take 8) % 2 ^ 64) = payload.take 8 :=
    hfield 8 0 (by omega)
  have hpublisher : toBeBytes 4 (fromBeBytes ((payload.drop 8).take 4) % 2 ^ 32) =
      (payload.drop 8).take 4 := hfield 4 8 (by omega)
  have hseq : toBeBytes 4 (fromBeBytes ((payload.drop 12).take 4) % 2 ^ 32) =
      (payload.drop 12).take 4 := hfield 4 12 (by omega)
  have htake : payload.take headerLen =
      payload.take 8 ++ (payload.drop 8).take 4 ++ (payload.drop 12).take 4 := by
    rw [show headerLen = 8 + 4 + 4 from rfl, List.take_add, List.take_add]
  have hmax : max payload.length headerLen = payload.length := max_eq_left hlong
  rw [build, hmax, htake]
  simp only [UInt64.toNat_ofNat', UInt32.toNat_ofNat', helapsed, hpublisher, hseq]

/-- **The measurement header over the whole format.** Building panics exactly above the longest
`Vec`; what it builds is the header, which can be read back, and zeros. What can be decoded is what
is long enough, and building it again keeps the header's bytes, and all of them exactly if the
others are zero; what is given to be decoded is a slice, and so not too long to be built again. -/
theorem format_exact :
    (∀ size header, buildPartial size header =
      if size ≤ maxVecLen then some (build size header) else none) ∧
    (∀ size header, (build size header).length = max size headerLen ∧
      decode (build size header) = some header ∧
      ∀ b ∈ (build size header).drop headerLen, b = 0) ∧
    (∀ payload, (∃ header, decode payload = some header) ↔ headerLen ≤ payload.length) ∧
    ∀ payload header, decode payload = some header →
      (build payload.length header).take headerLen = payload.take headerLen ∧
      (build payload.length header = payload ↔ ∀ b ∈ payload.drop headerLen, b = 0) := by
  refine ⟨buildPartial_eq, fun size header ↦ ⟨length_build size header, decode_build size header,
    fun b hb ↦ ?_⟩, fun _ ↦ decode_eq_some_iff, fun payload header h ↦ ⟨?_, ?_⟩⟩
  · rw [build, List.drop_left' (by simp [headerLen])] at hb
    exact List.eq_of_mem_replicate hb
  · have hlong : headerLen ≤ payload.length := decode_eq_some_iff.1 ⟨header, h⟩
    rw [build_of_decode h, List.take_left' (List.length_take_of_le hlong)]
  · have hsplit : build payload.length header = payload ↔
        payload.take headerLen ++ List.replicate (payload.length - headerLen) 0 =
          payload.take headerLen ++ payload.drop headerLen := by
      rw [build_of_decode h, List.take_append_drop]
    rw [hsplit, List.append_cancel_left_eq, eq_comm, List.eq_replicate_iff, List.length_drop]
    exact and_iff_right rfl

/-- A size that a `usize` holds, and a `Vec` does not: nothing is built. -/
theorem not_format_tooLong : ¬∀ size < 2 ^ 64, ∀ header, ∃ payload,
    buildPartial size header = some payload ∧ payload.length = max size headerLen ∧
      decode payload = some header := by
  intro hall
  obtain ⟨payload, hbuilt, -⟩ := hall (2 ^ 63) (by decide) ⟨0, 0, 0⟩
  rw [buildPartial_eq, if_neg (by decide)] at hbuilt
  cases hbuilt

end Payload

end Bench

end PulsemqCli
