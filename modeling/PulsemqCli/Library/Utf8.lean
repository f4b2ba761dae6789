import Mathlib.Data.List.Basic
import Mathlib.Data.List.TakeWhile

/-!
# UTF-8 over lists of bytes

`encode` writes characters as bytes. `decodeLossy` reads any bytes as characters: where no
character's encoding begins, the maximal part of an ill-formed sequence is replaced by U+FFFD. Text
is cut at an ASCII byte without a change to what is read on either side, for such a byte occurs in
no other encoding.

The encoder is Lean's own for one character, so that what is said of `encode` is said of
`String.toUTF8`. The decoder is the one the standard library of the source has, which replaces each
maximal ill-formed part. `decodeFirst` is Lean's decoder at the front of the bytes;
`decodeFirst_eq_some_iff` turns it into a statement about prefixes, and nothing else about it is
used.

That text can be cut rests on two facts about encodings: only the first byte of one is not a
continuation, and a byte below 0x80 is not one either and is an encoding by itself. The same holds
of what is replaced: `invalidTail` stops before a byte that is not a continuation, so it does not
depend on what comes after such a byte.
-/

namespace Utf8

/-- The bytes of characters. -/
def encode (cs : List Char) : List UInt8 :=
  cs.flatMap String.utf8EncodeChar

/-- The character whose encoding the bytes begin with. -/
def decodeFirst (bytes : List UInt8) : Option Char :=
  bytes.toByteArray.utf8DecodeChar? 0

/-- A byte that is not the first of its encoding. -/
def isContinuation (b : UInt8) : Bool :=
  0x80 ≤ b && b ≤ 0xBF

/-- How many bytes follow the first one, in the encodings that begin with it. -/
def trail (b : UInt8) : ℕ :=
  if b < 0xC2 then 0 else if b < 0xE0 then 1 else if b < 0xF0 then 2 else if b < 0xF5 then 3 else 0

/-- Some encoding begins with the two bytes. -/
def fits (b x : UInt8) : Bool :=
  isContinuation x && (b ≠ 0xE0 || 0xA0 ≤ x) && (b ≠ 0xED || x < 0xA0) && (b ≠ 0xF0 || 0x90 ≤ x) &&
    (b ≠ 0xF4 || x < 0x90)

/-- How many bytes are replaced together with a byte that begins no encoding. -/
def invalidTail (b : UInt8) : List UInt8 → ℕ
  | [] => 0
  | x :: rest =>
    if 2 ≤ trail b && fits b x then 1 + ((rest.take (trail b - 2)).takeWhile isContinuation).length
    else 0

/-- U+FFFD. -/
def replacement : Char :=
  Char.ofNat 0xFFFD

/-- The characters of the bytes, what is ill-formed replaced. -/
def decodeLossy : List UInt8 → List Char
  | [] => []
  | b :: rest =>
    match decodeFirst (b :: rest) with
    | some c => c :: decodeLossy (rest.drop (c.utf8Size - 1))
    | none => replacement :: decodeLossy (rest.drop (invalidTail b rest))
termination_by bytes => bytes.length
decreasing_by all_goals simp only [List.length_drop, List.length_cons]; omega

variable {bytes rest : List UInt8} {c : Char} {b x : UInt8}

/-! ### The first character -/

/-- The first character is the one whose encoding the bytes begin with. -/
theorem decodeFirst_eq_some_iff :
    decodeFirst bytes = some c ↔ String.utf8EncodeChar c <+: bytes := by
  constructor
  · intro h
    obtain ⟨l, hl⟩ := ByteArray.exists_of_utf8DecodeChar?_eq_some h
    refine ⟨l.data.toList, List.toByteArray_inj.1 ?_⟩
    rw [List.toByteArray_append, hl]
    congr 1
    ext1
    simp
  · rintro ⟨rest, rfl⟩
    rw [decodeFirst, List.toByteArray_append]
    exact ByteArray.utf8DecodeChar?_utf8EncodeChar_append

/-- Every character has an encoding. -/
theorem encodeChar_ne_nil (c : Char) : String.utf8EncodeChar c ≠ [] := by
  intro h
  have hlength := congrArg List.length h
  rw [String.length_utf8EncodeChar] at hlength
  exact absurd hlength c.utf8Size_pos.ne'

/-- Six bits and the mark of a continuation. -/
theorem isContinuation_or (v : UInt8) : isContinuation (v &&& 0x3f ||| 0x80) = true := by
  have hdecide : ∀ n : Fin 64, isContinuation (UInt8.ofNat n ||| 0x80) = true := by decide
  have hlt : (v &&& 0x3f).toNat < 64 := by
    rw [UInt8.toNat_and]
    exact Nat.lt_succ_of_le Nat.and_le_right
  have h := hdecide ⟨_, hlt⟩
  rwa [UInt8.ofNat_toNat] at h

/-- Only the first byte of an encoding is not a continuation. -/
theorem isContinuation_of_mem_tail (h : x ∈ (String.utf8EncodeChar c).tail) :
    isContinuation x = true := by
  rcases c.utf8Size_eq with hsize | hsize | hsize | hsize
  · rw [String.utf8EncodeChar_eq_singleton hsize] at h
    cases h
  · rw [String.utf8EncodeChar_eq_cons_cons hsize] at h
    cases List.mem_singleton.1 h
    exact isContinuation_or _
  · rw [String.utf8EncodeChar_eq_cons_cons_cons hsize] at h
    simp only [List.tail_cons, List.mem_cons, List.not_mem_nil, or_false] at h
    rcases h with rfl | rfl <;> exact isContinuation_or _
  · rw [String.utf8EncodeChar_eq_cons_cons_cons_cons hsize] at h
    simp only [List.tail_cons, List.mem_cons, List.not_mem_nil, or_false] at h
    rcases h with rfl | rfl | rfl <;> exact isContinuation_or _

/-- ASCII is never a continuation. -/
theorem not_isContinuation_of_ascii (h : b < 0x80) : isContinuation b = false := by
  rw [isContinuation, Bool.and_eq_false_iff]
  exact Or.inl (decide_eq_false (UInt8.not_le.2 h))

/-- The character of an ASCII byte. -/
def ascii (b : UInt8) : Char :=
  Char.ofNat b.toNat

/-- The character of an ASCII byte has its number. -/
theorem val_ascii (b : UInt8) : (ascii b).val.toNat = b.toNat := by
  have hvalid : b.toNat.isValidChar := Or.inl (b.toNat_lt.trans (by decide))
  rw [ascii, Char.ofNat, dif_pos hvalid]
  rfl

/-- ASCII characters, and no others, are encoded as one byte. -/
theorem encodeChar_of_ascii (h : c.val ≤ 0x7f) : String.utf8EncodeChar c = [c.val.toUInt8] :=
  String.utf8EncodeChar_eq_singleton (Char.utf8Size_eq_one_iff.2 h)

theorem val_ascii_le (h : b < 0x80) : (ascii b).val ≤ 0x7f := by
  rw [UInt32.le_iff_toNat_le, val_ascii]
  exact Nat.le_of_lt_succ (UInt8.lt_iff_toNat_lt.1 h)

/-- And its encoding is the byte. -/
theorem encodeChar_ascii (h : b < 0x80) : String.utf8EncodeChar (ascii b) = [b] := by
  rw [encodeChar_of_ascii (val_ascii_le h)]
  congr 1
  rw [← UInt8.toNat_inj, UInt32.toNat_toUInt8, val_ascii]
  exact Nat.mod_eq_of_lt b.toNat_lt

/-! ### Reading on

A reader looks at the front, takes one character or replaces one ill-formed part, and goes on. The
lemmas say when what is at the front does not depend on what comes behind. -/

@[simp] theorem decodeLossy_nil : decodeLossy [] = [] := by
  rw [decodeLossy]

/-- An encoding at the front is read as its character. -/
theorem decodeLossy_encodeChar_append (c : Char) (bytes : List UInt8) :
    decodeLossy (String.utf8EncodeChar c ++ bytes) = c :: decodeLossy bytes := by
  have hfirst : decodeFirst (String.utf8EncodeChar c ++ bytes) = some c :=
    decodeFirst_eq_some_iff.2 (List.prefix_append _ _)
  have hlength := String.length_utf8EncodeChar c
  cases hc : String.utf8EncodeChar c with
  | nil => exact absurd hc (encodeChar_ne_nil c)
  | cons b tail =>
    rw [hc] at hfirst hlength
    rw [List.cons_append] at hfirst ⊢
    rw [decodeLossy, hfirst]
    simp only
    rw [← hlength, List.length_cons, Nat.add_sub_cancel, List.drop_left]

/-- **What was encoded is read back.** -/
theorem decodeLossy_encode_append (cs : List Char) (bytes : List UInt8) :
    decodeLossy (encode cs ++ bytes) = cs ++ decodeLossy bytes := by
  induction cs with
  | nil => rfl
  | cons c cs ih =>
    rw [encode, List.flatMap_cons, List.append_assoc, decodeLossy_encodeChar_append,
      List.cons_append]
    exact congrArg _ ih

/-- Reading is a left inverse of writing. -/
theorem decodeLossy_encode (cs : List Char) : decodeLossy (encode cs) = cs := by
  have h := decodeLossy_encode_append cs []
  rwa [List.append_nil, decodeLossy_nil, List.append_nil] at h

/-- An ASCII byte at the front is read by itself. -/
theorem decodeLossy_cons_ascii (h : b < 0x80) (rest : List UInt8) :
    decodeLossy (b :: rest) = ascii b :: decodeLossy rest := by
  have happend := decodeLossy_encodeChar_append (ascii b) rest
  rwa [encodeChar_ascii h] at happend

/-- What is taken while a predicate holds ends before a byte where it fails. -/
theorem takeWhile_take_append {p : UInt8 → Bool} (hb : p b = false) (l rest : List UInt8) (n : ℕ) :
    ((l ++ b :: rest).take n).takeWhile p = (l.take n).takeWhile p := by
  induction l generalizing n with
  | nil => cases n <;> simp [hb]
  | cons y l ih =>
    cases n with
    | zero => simp
    | succ n =>
      rw [List.cons_append, List.take_succ_cons, List.take_succ_cons, List.takeWhile_cons,
        List.takeWhile_cons, ih]

/-- What is replaced ends before a byte that is not a continuation. -/
theorem invalidTail_append (hx : isContinuation x = false) (l : List UInt8) :
    invalidTail b (l ++ x :: rest) = invalidTail b l := by
  cases l with
  | nil =>
    have hfits : fits b x = false := by
      simp [fits, hx]
    rw [List.nil_append, invalidTail, invalidTail, hfits, Bool.and_false]
    rfl
  | cons y l => rw [List.cons_append, invalidTail, invalidTail, takeWhile_take_append hx]

/-- No more is replaced than there is. -/
theorem invalidTail_le (b : UInt8) (l : List UInt8) : invalidTail b l ≤ l.length := by
  cases l with
  | nil => exact le_rfl
  | cons y l =>
    rw [invalidTail]
    split
    · have htake := (List.takeWhile_prefix isContinuation (l := l.take (trail b - 2))).length_le
      have hle := (List.take_prefix (trail b - 2) l).length_le
      rw [List.length_cons]
      omega
    · exact Nat.zero_le _

/-- An encoding does not reach beyond a byte that is not a continuation. -/
theorem decodeFirst_append (hx : isContinuation x = false) (l : List UInt8) :
    decodeFirst (b :: l ++ x :: rest) = decodeFirst (b :: l) := by
  ext c
  simp only [decodeFirst_eq_some_iff]
  refine ⟨fun h ↦ ?_, fun h ↦ h.trans (List.prefix_append _ _)⟩
  rcases List.prefix_or_prefix_of_prefix h (List.prefix_append (b :: l) (x :: rest)) with
    hshort | ⟨t, ht⟩
  · exact hshort
  · cases t with
    | nil =>
      rw [List.append_nil] at ht
      exact ht ▸ List.prefix_rfl
    | cons y t =>
      rw [← ht] at h
      have hy : y = x := (List.cons_prefix_cons.1 ((List.prefix_append_right_inj _).1 h)).1
      have htail : x ∈ (String.utf8EncodeChar c).tail := by
        rw [← ht, ← hy]
        simp
      exact absurd (hx.symm.trans (isContinuation_of_mem_tail htail)) Bool.false_ne_true

/-- **Text is cut at an ASCII byte.** -/
theorem decodeLossy_append_ascii (hx : x < 0x80) (l rest : List UInt8) :
    decodeLossy (l ++ x :: rest) = decodeLossy l ++ decodeLossy (x :: rest) := by
  have hcontinuation := not_isContinuation_of_ascii hx
  induction hn : l.length using Nat.strong_induction_on generalizing l with
  | _ n ih =>
    cases l with
    | nil => simp
    | cons b l =>
      have hfirst : decodeFirst (b :: l ++ x :: rest) = decodeFirst (b :: l) :=
        decodeFirst_append hcontinuation l
      have hrest : ∀ k ≤ l.length, decodeLossy ((l ++ x :: rest).drop k) =
          decodeLossy (l.drop k) ++ decodeLossy (x :: rest) := by
        intro k hk
        rw [List.drop_append_of_le_length hk]
        refine ih _ ?_ _ rfl
        rw [← hn, List.length_drop, List.length_cons]
        omega
      rw [List.cons_append] at hfirst ⊢
      rw [decodeLossy, hfirst, decodeLossy]
      cases hc : decodeFirst (b :: l) with
      | some c =>
        have hsize : c.utf8Size - 1 ≤ l.length := by
          have hle := (decodeFirst_eq_some_iff.1 hc).length_le
          rw [String.length_utf8EncodeChar, List.length_cons] at hle
          omega
        exact congrArg (c :: ·) (hrest _ hsize)
      | none =>
        simp only
        rw [invalidTail_append hcontinuation, hrest _ (invalidTail_le b l), List.cons_append]

/-- An ASCII character that is read is one of the bytes. -/
theorem mem_of_mem_decodeLossy (hc : c.val ≤ 0x7f) (h : c ∈ decodeLossy bytes) :
    c.val.toUInt8 ∈ bytes := by
  induction bytes using decodeLossy.induct with
  | case1 => simp at h
  | case2 b rest c' hfirst ih =>
    rw [decodeLossy, hfirst] at h
    rcases List.mem_cons.1 h with rfl | h
    · have hbytes := decodeFirst_eq_some_iff.1 hfirst
      rw [encodeChar_of_ascii hc] at hbytes
      exact hbytes.subset List.mem_cons_self
    · exact List.mem_cons_of_mem _ (List.mem_of_mem_drop (ih h))
  | case3 b rest hfirst ih =>
    rw [decodeLossy, hfirst] at h
    rcases List.mem_cons.1 h with rfl | h
    · exact absurd hc (by decide)
    · exact List.mem_cons_of_mem _ (List.mem_of_mem_drop (ih h))

/-! ### Well-formed bytes -/

/-- The bytes are the encoding of some characters. -/
def Valid (bytes : List UInt8) : Prop :=
  ∃ cs, encode cs = bytes

/-- Well-formed bytes are those that are read and written back unchanged. -/
theorem valid_iff : Valid bytes ↔ encode (decodeLossy bytes) = bytes := by
  refine ⟨?_, fun h ↦ ⟨_, h⟩⟩
  rintro ⟨cs, rfl⟩
  rw [decodeLossy_encode]

instance (bytes : List UInt8) : Decidable (Valid bytes) :=
  decidable_of_iff _ valid_iff.symm

theorem valid_nil : Valid [] :=
  ⟨[], rfl⟩

/-- Well-formed bytes can be joined. -/
theorem Valid.append {a b : List UInt8} (ha : Valid a) (hb : Valid b) : Valid (a ++ b) := by
  obtain ⟨cs, rfl⟩ := ha
  obtain ⟨ds, rfl⟩ := hb
  exact ⟨cs ++ ds, List.flatMap_append⟩

theorem valid_encodeChar (c : Char) : Valid (String.utf8EncodeChar c) :=
  ⟨[c], List.flatMap_singleton _ _⟩

/-- **Well-formed bytes are cut at an ASCII byte.** -/
theorem valid_append_ascii_iff (hx : x < 0x80) {l : List UInt8} :
    Valid (l ++ x :: rest) ↔ Valid l ∧ Valid rest := by
  constructor
  · rintro ⟨cs, hcs⟩
    induction cs generalizing l with
    | nil => exact absurd (congrArg List.length hcs) (by simp [encode])
    | cons c cs ih =>
      rw [encode, List.flatMap_cons] at hcs
      cases l with
      | nil =>
        have hc : decodeFirst (x :: rest) = some c :=
          decodeFirst_eq_some_iff.2 ⟨_, hcs⟩
        have hascii : decodeFirst (x :: rest) = some (ascii x) :=
          decodeFirst_eq_some_iff.2 (by rw [encodeChar_ascii hx]; exact ⟨rest, rfl⟩)
        cases hc.symm.trans hascii
        rw [encodeChar_ascii hx] at hcs
        exact ⟨valid_nil, cs, (List.cons.inj hcs).2⟩
      | cons b l =>
        have hc : decodeFirst (b :: l ++ x :: rest) = some c :=
          decodeFirst_eq_some_iff.2 ⟨_, hcs⟩
        rw [decodeFirst_append (not_isContinuation_of_ascii hx)] at hc
        obtain ⟨t, ht⟩ := decodeFirst_eq_some_iff.1 hc
        rw [← ht, List.append_assoc] at hcs
        obtain ⟨hl, hrest⟩ := ih (List.append_cancel_left hcs)
        exact ⟨ht ▸ (valid_encodeChar c).append hl, hrest⟩
  · rintro ⟨hl, hrest⟩
    have hascii : Valid [x] := encodeChar_ascii hx ▸ valid_encodeChar (ascii x)
    exact hl.append (hascii.append hrest)

end Utf8
