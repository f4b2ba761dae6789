import PulsemqCli.Library.Utf8
import PulsemqCli.Protocol

/-!
# What is written to stdout

`print_message` writes a message, and with `--show-topic` its properties and topic. On a terminal
each of these passes through `write_payload`, which escapes control characters byte by byte. It
copies the spans between them whole, so its loop carries the place where the present span began.

What the terminal makes of the bytes is their decoding as UTF-8. There a control character need not
be one byte: those from U+0080 to U+009F are two, and neither of them is escaped.

The escaper is described twice. `escapeLoop` is the loop of the source, with its index and its
pending span; `escape` maps each byte to the text that stands for it. `writePayload_eq` says that
they agree, which `escapeLoop_eq` proves by saying what the loop still has to write at any index.
Everything after that is about `escape`.

Whether a terminal is shielded is then a question about decoding. An escaped byte is ASCII text and
cuts the text around it, so the controls of a message are the controls of its parts, one after the
other (`controls_append_ascii`). In a part, tab aside, only bytes from 0x80 on can pass unescaped
and be more than printable ASCII, and the controls that these make up are C1 (`controls_escape`). A
byte of the 0x80 range alone is no such control: it is ill-formed, and is read as U+FFFD.

The properties of a message and its topic are strings that the broker chose, and its payload is any
bytes. `FreeOfC1` therefore asks of the strings that are shown that no C1 control is among their
characters, and of the payload that none is in what it decodes to.
-/

namespace PulsemqCli

namespace Terminal

open Protocol Utf8

/-- The bytes of a character of ASCII text. -/
def byteOf (c : Char) : UInt8 :=
  c.val.toUInt8

/-- The bytes that are not escaped: tab, the printable ASCII bytes and all beyond ASCII. -/
def printable (byte : UInt8) : Bool :=
  byte = byteOf '\t' || (0x20 ≤ byte && byte < 0x7F) || 0x80 ≤ byte

/-- `\xNN`, with two lower-case hexadecimal digits. -/
def hex (byte : UInt8) : List UInt8 :=
  [byteOf '\\', byteOf 'x', byteOf (Nat.digitChar (byte.toNat / 16)),
    byteOf (Nat.digitChar (byte.toNat % 16))]

/-- `&bytes[from..to]`, which panics where the range is not one of the slice's. -/
def slice (bytes : List UInt8) (first last : ℕ) : Option (List UInt8) :=
  if first ≤ last ∧ last ≤ bytes.length then some ((bytes.drop first).take (last - first)) else none

/-- The loop of `write_payload`, over the bytes from `index` on. It returns what was written to
`out`, unless a slice is out of range. -/
def escapeLoop (bytes : List UInt8) :
    List UInt8 → (index plainFrom : ℕ) → (out : List UInt8) → Option (List UInt8)
  | [], _, plainFrom, out => do
    let span ← slice bytes plainFrom bytes.length
    return out ++ span
  | byte :: rest, index, plainFrom, out =>
    if printable byte then escapeLoop bytes rest (index + 1) plainFrom out
    else do
      let span ← slice bytes plainFrom index
      escapeLoop bytes rest (index + 1) (index + 1) (out ++ span ++ hex byte)

/-- `write_payload`, to an `out` that takes everything. -/
def writePayload (out bytes : List UInt8) (escape : Bool) : Option (List UInt8) :=
  if !escape then some (out ++ bytes) else escapeLoop bytes bytes 0 0 out

/-! ### The escaper, byte by byte

The loop copies a span when it comes to a byte that must be escaped, and at the end. Between two
copies it writes nothing, so the invariant has to speak of the bytes that are passed but not
written. -/

def escapeByte (byte : UInt8) : List UInt8 :=
  if printable byte then [byte] else hex byte

def escape (bytes : List UInt8) : List UInt8 :=
  bytes.flatMap escapeByte

@[simp] theorem escape_nil : escape [] = [] := rfl

theorem escape_cons (byte : UInt8) (bytes : List UInt8) :
    escape (byte :: bytes) = escapeByte byte ++ escape bytes :=
  List.flatMap_cons

/-- The escaper goes byte by byte. -/
theorem escape_append (a b : List UInt8) : escape (a ++ b) = escape a ++ escape b :=
  List.flatMap_append

/-- Printable bytes are written as they are. -/
theorem escape_of_printable {bytes : List UInt8} (h : ∀ byte ∈ bytes, printable byte = true) :
    escape bytes = bytes := by
  induction bytes with
  | nil => rfl
  | cons byte bytes ih =>
    obtain ⟨hbyte, hbytes⟩ := List.forall_mem_cons.1 h
    rw [escape_cons, ih hbytes, escapeByte, if_pos hbyte]
    rfl

/-- The slice between two others. -/
theorem slice_eq (before span after : List UInt8) :
    slice (before ++ (span ++ after)) before.length (before.length + span.length) = some span := by
  rw [slice, if_pos, List.drop_left, Nat.add_sub_cancel_left, List.take_left]
  simp only [List.length_append]
  omega

/-- **The loop's invariant.** The bytes before `plainFrom` are dealt with, and from there to `index`
nothing has to be escaped. -/
theorem escapeLoop_eq {bytes before span rest : List UInt8} {index plainFrom : ℕ}
    (hbytes : bytes = before ++ (span ++ rest)) (hfrom : plainFrom = before.length)
    (hindex : index = before.length + span.length) (hspan : ∀ byte ∈ span, printable byte = true)
    (out : List UInt8) :
    escapeLoop bytes rest index plainFrom out = some (out ++ span ++ escape rest) := by
  induction rest generalizing before span index plainFrom out with
  | nil =>
    have hslice : slice bytes plainFrom bytes.length = some span := by
      have hlength : bytes.length = before.length + span.length := by
        rw [hbytes, List.append_nil, List.length_append]
      rw [hlength, hfrom, hbytes]
      exact slice_eq before span []
    rw [escapeLoop, hslice, escape_nil, List.append_nil]
    rfl
  | cons byte rest ih =>
    rw [escapeLoop]
    split
    next hbyte =>
      have hspan' : ∀ b ∈ span ++ [byte], printable b = true := by
        intro b hb
        rcases List.mem_append.1 hb with hb | hb
        · exact hspan b hb
        · exact List.mem_singleton.1 hb ▸ hbyte
      have hindex' : index + 1 = before.length + (span ++ [byte]).length := by
        rw [hindex, List.length_append, List.length_singleton, Nat.add_assoc]
      rw [ih (by simp [hbytes]) hfrom hindex' hspan' out, escape_cons, escapeByte, if_pos hbyte]
      simp
    next hbyte =>
      have hslice : slice bytes plainFrom index = some span := by
        rw [hbytes, hfrom, hindex]
        exact slice_eq before span (byte :: rest)
      have hindex' : index + 1 = (before ++ span ++ [byte]).length := by
        rw [hindex, List.length_append, List.length_append, List.length_singleton]
      have hloop : escapeLoop bytes rest (index + 1) (index + 1) (out ++ span ++ hex byte) =
          some (out ++ span ++ hex byte ++ [] ++ escape rest) :=
        ih (by simp [hbytes]) hindex' (Nat.add_zero _ ▸ hindex')
          (fun b hb ↦ absurd hb List.not_mem_nil) _
      rw [hslice, Option.bind_eq_bind, Option.bind_some, hloop, escape_cons, escapeByte,
        if_neg hbyte]
      simp

/-- On a terminal, `write_payload` appends the escaped bytes. -/
theorem writePayload_of_escape (out bytes : List UInt8) :
    writePayload out bytes true = some (out ++ escape bytes) := by
  have hbytes : bytes = [] ++ ([] ++ bytes) := rfl
  have hloop := escapeLoop_eq hbytes rfl rfl (fun b hb ↦ absurd hb List.not_mem_nil) out
  rw [List.append_nil] at hloop
  exact hloop

/-- What passes unescaped: tab, the printable part of ASCII, and everything beyond ASCII. -/
theorem printable_iff {byte : UInt8} :
    printable byte = true ↔ byte = 0x09 ∨ 0x20 ≤ byte ∧ byte ≤ 0x7E ∨ 0x80 ≤ byte := by
  have hlt : byte < 0x7F ↔ byte ≤ 0x7E := by
    rw [UInt8.lt_iff_toNat_lt, UInt8.le_iff_toNat_le]
    exact Nat.lt_succ_iff
  simp only [printable, Bool.or_eq_true, Bool.and_eq_true, decide_eq_true_eq, hlt, or_assoc]
  exact Iff.rfl

/-- **`write_payload` is the escaper that goes byte by byte.** Without escaping it writes the bytes
as they are; with it, each byte as it is or as `\xNN`. No slice it takes is out of range, and to
write one sequence after another is to write them together. -/
theorem writePayload_eq (out bytes : List UInt8) :
    writePayload out bytes false = some (out ++ bytes) ∧
    writePayload out bytes true = some (out ++ bytes.flatMap fun byte ↦
      if byte = 0x09 ∨ 0x20 ≤ byte ∧ byte ≤ 0x7E ∨ 0x80 ≤ byte then [byte]
      else [byteOf '\\', byteOf 'x', byteOf (Nat.digitChar (byte.toNat / 16)),
        byteOf (Nat.digitChar (byte.toNat % 16))]) ∧
    ∀ more, writePayload out (bytes ++ more) true =
      (writePayload out bytes true).bind fun out ↦ writePayload out more true := by
  refine ⟨rfl, ?_, fun more ↦ ?_⟩
  · simp only [← printable_iff]
    exact writePayload_of_escape out bytes
  · rw [writePayload_of_escape, writePayload_of_escape, Option.bind_some, writePayload_of_escape,
      escape_append, List.append_assoc]

/-! ### Messages

The three parts that can be shown, in the order of the source. Without `--show-topic` a message is
its payload and a line feed. -/

/-- `str::as_bytes`. -/
def asBytes (s : String) : List UInt8 :=
  encode s.toList

/-- The properties `--show-topic` prints, a `key=value` each. -/
def propertyParts (properties : Properties) : List String :=
  properties.contentType.toList.map ("content-type=" ++ ·) ++
    properties.messageExpiryInterval.toList.map (fun v ↦
      "message-expiry-interval=" ++ v.toNat.repr) ++
    properties.payloadFormatIndicator.toList.map (fun v ↦
      "payload-format-indicator=" ++ v.toNat.repr) ++
    properties.userProperties.map fun (k, v) ↦ "user:" ++ k ++ "=" ++ v

/-- `None` where there are none of them. -/
def formatProperties (properties : Properties) : Option (List UInt8) :=
  if propertyParts properties = [] then none
  else some (asBytes (" ".intercalate (propertyParts properties)))

/-- The line of properties, where there is one. -/
def printProperties (properties : Properties) (toTerminal : Bool) : Option (List UInt8) :=
  match formatProperties properties with
  | some line => do
    let out ← writePayload [] line toTerminal
    return out ++ [byteOf '\n']
  | none => some []

/-- What is written before the payload. -/
def printHeader (publish : Publish) (toTerminal : Bool) : Option (List UInt8) := do
  let out ← printProperties publish.properties toTerminal
  let out ← writePayload out (asBytes publish.topic) toTerminal
  return out ++ [byteOf ' ']

/-- `print_message`: the bytes it writes to stdout. -/
def printMessage (publish : Publish) (showTopic toTerminal : Bool) : Option (List UInt8) := do
  let out ← (if showTopic then printHeader publish toTerminal else some [])
  let out ← writePayload out publish.payload toTerminal
  return out ++ [byteOf '\n']

/-! ### Control characters

Unicode has three ranges of control characters: C0, which is ASCII below U+0020, DEL, and C1. Tab is
let through by design. -/

/-- Unicode's control characters: C0, DEL and C1. -/
def isControl (c : Char) : Bool :=
  c.val < 0x20 || (0x7F ≤ c.val && c.val ≤ 0x9F)

def isC1 (c : Char) : Bool :=
  0x80 ≤ c.val && c.val ≤ 0x9F

/-- The control characters but tab in what a terminal makes of the bytes. -/
def controls (bytes : List UInt8) : List Char :=
  (decodeLossy bytes).filter fun c ↦ c ≠ '\t' && isControl c

/-- How many lines `print_message` ends. -/
def ownLineFeeds (publish : Publish) (showTopic : Bool) : ℕ :=
  if showTopic && (formatProperties publish.properties).isSome then 2 else 1

/-- No control character reaches a terminal but tab and `print_message`'s own line feeds. -/
def Shielded (publish : Publish) (showTopic : Bool) : Prop :=
  ∃ out, printMessage publish showTopic true = some out ∧
    controls out = List.replicate (ownLineFeeds publish showTopic) '\n'

/-- The broker's strings among the properties that are printed. -/
def propertyStrings (properties : Properties) : List String :=
  properties.contentType.toList ++ properties.userProperties.flatMap fun (k, v) ↦ [k, v]

/-- Nothing that is printed has a C1 control. -/
def FreeOfC1 (publish : Publish) (showTopic : Bool) : Prop :=
  (∀ c ∈ decodeLossy publish.payload, isC1 c = false) ∧
    (showTopic = true → (∀ c ∈ publish.topic.toList, isC1 c = false) ∧
      ∀ s ∈ propertyStrings publish.properties, ∀ c ∈ s.toList, isC1 c = false)

/-- ASCII has no C1 controls. -/
theorem isC1_of_ascii {c : Char} (h : c.val ≤ 0x7f) : isC1 c = false := by
  rw [isC1, Bool.and_eq_false_iff]
  refine Or.inl (decide_eq_false fun hle ↦ ?_)
  rw [UInt32.le_iff_toNat_le] at h hle
  exact absurd (hle.trans h) (by decide)

@[simp] theorem controls_nil : controls [] = [] := by
  rw [controls, decodeLossy_nil]
  rfl

/-- The controls of a text are found on either side of an ASCII byte. -/
theorem controls_append_ascii {x : UInt8} (hx : x < 0x80) (l rest : List UInt8) :
    controls (l ++ x :: rest) = controls l ++ controls (x :: rest) := by
  rw [controls, decodeLossy_append_ascii hx, List.filter_append]
  rfl

/-- An ASCII byte that is no control adds none. -/
theorem controls_cons_ascii {x : UInt8} (hx : x < 0x80)
    (hcontrol : (ascii x ≠ '\t' && isControl (ascii x)) = false) (rest : List UInt8) :
    controls (x :: rest) = controls rest := by
  rw [controls, decodeLossy_cons_ascii hx, List.filter_cons_of_neg (by rw [hcontrol]; decide)]
  rfl

/-- A line feed is a control. -/
theorem controls_lineFeed (rest : List UInt8) :
    controls (byteOf '\n' :: rest) = '\n' :: controls rest := by
  rw [controls, decodeLossy_cons_ascii (by decide), List.filter_cons_of_pos (by decide)]
  rfl

/-- The escape of a byte is printable ASCII text. -/
theorem controls_hex (byte : UInt8) (rest : List UInt8) :
    controls (hex byte ++ rest) = controls rest := by
  have hdigit : ∀ n : Fin 16, byteOf (Nat.digitChar n) < 0x80 ∧
      (ascii (byteOf (Nat.digitChar n)) ≠ '\t' &&
        isControl (ascii (byteOf (Nat.digitChar n)))) = false := by decide
  have hhigh := hdigit ⟨byte.toNat / 16, by have := byte.toNat_lt; omega⟩
  have hlow := hdigit ⟨byte.toNat % 16, Nat.mod_lt _ (by decide)⟩
  simp only [hex, List.cons_append, List.nil_append]
  rw [controls_cons_ascii (by decide) (by decide), controls_cons_ascii (by decide) (by decide),
    controls_cons_ascii hhigh.1 hhigh.2, controls_cons_ascii hlow.1 hlow.2]

/-- Beyond ASCII the control characters are C1. -/
theorem isControl_of_not_ascii {c : Char} (h : ¬c.val ≤ 0x7f) :
    (c ≠ '\t' && isControl c) = isC1 c := by
  have htab : c ≠ '\t' := by
    rintro rfl
    exact h (by decide)
  rw [UInt32.le_iff_toNat_le, not_le] at h
  have hlow : ¬c.val < 0x20 := fun hlt ↦ by
    rw [UInt32.lt_iff_toNat_lt] at hlt
    exact absurd (h.trans hlt) (by decide)
  have hbounds : (0x7F ≤ c.val ↔ 0x80 ≤ c.val) := by
    rw [UInt32.le_iff_toNat_le, UInt32.le_iff_toNat_le]
    exact ⟨fun _ ↦ h, fun _ ↦ h.le⟩
  simp only [isControl, isC1, htab, hlow, hbounds, ne_eq, not_false_eq_true, decide_true,
    decide_false, Bool.true_and, Bool.false_or]

/-- A printable ASCII byte is no control character but tab. -/
theorem isControl_of_printable {c : Char} (h : c.val ≤ 0x7f)
    (hbyte : printable c.val.toUInt8 = true) : (c ≠ '\t' && isControl c) = false := by
  have hnat : c.val.toUInt8.toNat = c.val.toNat := by
    rw [UInt32.toNat_toUInt8]
    exact Nat.mod_eq_of_lt ((UInt32.le_iff_toNat_le.1 h).trans_lt (by decide))
  rw [printable_iff, ← UInt8.toNat_inj, UInt8.le_iff_toNat_le, UInt8.le_iff_toNat_le,
    UInt8.le_iff_toNat_le, hnat] at hbyte
  rw [UInt32.le_iff_toNat_le] at h
  rcases hbyte with htab | ⟨hlow, hhigh⟩ | hbeyond
  · have hc : c = '\t' := Char.ext (UInt32.toNat_inj.1 htab)
    simp [hc]
  · have hcontrol : isControl c = false := by
      simp only [isControl, Bool.or_eq_false_iff, Bool.and_eq_false_iff, decide_eq_false_iff_not,
        UInt32.lt_iff_toNat_lt, UInt32.le_iff_toNat_le]
      exact ⟨not_lt.2 hlow, Or.inl (not_le.2 (Nat.lt_succ_of_le hhigh))⟩
    rw [hcontrol, Bool.and_false]
  · exact absurd (hbeyond.trans h) (by decide)

/-- In printable bytes the only control characters are tab and C1. -/
theorem controls_of_printable {bytes : List UInt8} (h : ∀ byte ∈ bytes, printable byte = true) :
    controls bytes = (decodeLossy bytes).filter isC1 := by
  refine List.filter_congr fun c hc ↦ ?_
  by_cases hascii : c.val ≤ 0x7f
  · rw [isC1_of_ascii hascii]
    exact isControl_of_printable hascii (h _ (mem_of_mem_decodeLossy hascii hc))
  · exact isControl_of_not_ascii hascii

/-- **What escaping lets through**: exactly the C1 controls. -/
theorem controls_escape (bytes : List UInt8) :
    controls (escape bytes) = (decodeLossy bytes).filter isC1 := by
  induction hn : bytes.length using Nat.strong_induction_on generalizing bytes with
  | _ n ih =>
    by_cases h : ∀ byte ∈ bytes, printable byte = true
    · rw [escape_of_printable h]
      exact controls_of_printable h
    · obtain ⟨byte, hbyte⟩ := not_forall.1 h
      obtain ⟨hmem, hescaped⟩ := Classical.not_imp.1 hbyte
      obtain ⟨before, after, rfl⟩ := List.append_of_mem hmem
      have hascii : byte < 0x80 := by
        by_contra hge
        exact hescaped (printable_iff.2 (Or.inr (Or.inr (UInt8.not_lt.1 hge))))
      rw [List.length_append, List.length_cons] at hn
      rw [escape_append, escape_cons, escapeByte, if_neg hescaped, decodeLossy_append_ascii hascii,
        decodeLossy_cons_ascii hascii, List.filter_append, ← ih _ (by omega) before rfl,
        List.filter_cons_of_neg (by rw [isC1_of_ascii (val_ascii_le hascii)]; decide),
        ← ih _ (by omega) after rfl, hex, List.cons_append, controls_append_ascii (by decide)]
      exact congrArg _ (controls_hex byte (escape after))

/-! ### What a terminal is shown -/

/-- The C1 controls of a text. -/
def c1 (s : String) : List Char :=
  s.toList.filter isC1

/-- The controls in the escape of a string, up to an ASCII byte. -/
theorem controls_asBytes {x : UInt8} (hx : x < 0x80) (s : String) (rest : List UInt8) :
    controls (escape (asBytes s) ++ x :: rest) = c1 s ++ controls (x :: rest) := by
  rw [controls_append_ascii hx, controls_escape, asBytes, decodeLossy_encode]
  rfl

/-- The line of properties, escaped, with its line feed. -/
def propertyLine (properties : Properties) : List UInt8 :=
  if propertyParts properties = [] then []
  else escape (asBytes (" ".intercalate (propertyParts properties))) ++ [byteOf '\n']

/-- `print_message` on a terminal: the line of properties and the topic where they are shown, the
payload, and a line feed. -/
theorem printMessage_eq (publish : Publish) (showTopic : Bool) :
    printMessage publish showTopic true = some
      ((if showTopic then
          propertyLine publish.properties ++ (escape (asBytes publish.topic) ++ [byteOf ' '])
        else []) ++ (escape publish.payload ++ [byteOf '\n'])) := by
  have hproperties : printProperties publish.properties true =
      some (propertyLine publish.properties) := by
    unfold printProperties formatProperties propertyLine
    split
    next line hline =>
      split at hline
      next => cases hline
      next h =>
        cases hline
        rw [if_neg h, writePayload_of_escape]
        rfl
    next hline =>
      split at hline
      next h => rw [if_pos h]
      next => cases hline
  cases showTopic with
  | false =>
    simp only [printMessage, writePayload_of_escape]
    simp
  | true =>
    simp only [printMessage, printHeader, hproperties, writePayload_of_escape]
    simp

/-- The controls in the line of properties. -/
def propertyControls (properties : Properties) : List Char :=
  if propertyParts properties = [] then []
  else c1 (" ".intercalate (propertyParts properties)) ++ ['\n']

/-- The controls in the line of properties, with those of what follows. -/
theorem controls_propertyLine (properties : Properties) (rest : List UInt8) :
    controls (propertyLine properties ++ rest) =
      propertyControls properties ++ controls rest := by
  rw [propertyLine, propertyControls]
  split
  · rfl
  · rw [List.append_assoc, List.singleton_append, controls_asBytes (by decide), controls_lineFeed,
      List.append_assoc]
    rfl

/-- The control characters a terminal is shown. -/
def shown (publish : Publish) (showTopic : Bool) : List Char :=
  (if showTopic then propertyControls publish.properties ++ c1 publish.topic else []) ++
    ((decodeLossy publish.payload).filter isC1 ++ ['\n'])

/-- What a terminal is shown of controls when a message is printed. -/
theorem controls_printMessage (publish : Publish) (showTopic : Bool) :
    (printMessage publish showTopic true).map controls = some (shown publish showTopic) := by
  have hpayload : controls (escape publish.payload ++ [byteOf '\n']) =
      (decodeLossy publish.payload).filter isC1 ++ ['\n'] := by
    rw [controls_append_ascii (by decide), controls_escape, controls_lineFeed, controls_nil]
  rw [printMessage_eq, Option.map_some, shown]
  congr 1
  cases showTopic with
  | false => exact hpayload
  | true =>
    simp only [if_true, List.append_assoc]
    rw [List.singleton_append, controls_propertyLine, controls_asBytes (by decide),
      controls_cons_ascii (by decide) (by decide), hpayload]

/-! ### Texts without C1 controls

What is left is to say in terms of the message when no C1 control is shown. The names of the
properties and the numbers among them are ASCII, so only the strings that the broker has chosen
matter. -/

/-- A string has no C1 control where none of its characters is one. -/
theorem c1_eq_nil_iff {s : String} : c1 s = [] ↔ ∀ c ∈ s.toList, isC1 c = false := by
  simp only [c1, List.filter_eq_nil_iff, Bool.not_eq_true]

@[simp] theorem c1_append (s t : String) : c1 (s ++ t) = c1 s ++ c1 t := by
  rw [c1, String.toList_append, List.filter_append]
  rfl

/-- A number is written in digits. -/
@[simp] theorem c1_repr (n : ℕ) : c1 n.repr = [] := by
  rw [c1_eq_nil_iff]
  intro c hc
  rw [Nat.toList_repr] at hc
  have hdigit := Nat.isDigit_of_mem_toDigits (by decide) (by decide) hc
  have hle : c.val ≤ 0x39 := by
    rw [Char.isDigit, Bool.and_eq_true, decide_eq_true_eq, decide_eq_true_eq] at hdigit
    exact hdigit.2
  exact isC1_of_ascii (UInt32.le_trans hle (by decide))

/-- Spaces join texts without adding a C1 control. -/
theorem c1_intercalate (parts : List String) : c1 (" ".intercalate parts) = parts.flatMap c1 := by
  have hspace : c1 " " = [] := by decide
  induction parts with
  | nil => decide
  | cons s parts ih =>
    by_cases hparts : parts = []
    · rw [hparts, String.intercalate_singleton, List.flatMap_singleton]
    · rw [String.intercalate_cons_of_ne_nil hparts, c1_append, c1_append, hspace, ih,
        List.append_nil, List.flatMap_cons]

/-- Of the line of properties only the broker's strings can have C1 controls. -/
theorem flatMap_c1_propertyParts (properties : Properties) :
    (propertyParts properties).flatMap c1 = (propertyStrings properties).flatMap c1 := by
  have hlabels : c1 "content-type=" = [] ∧ c1 "message-expiry-interval=" = [] ∧
      c1 "payload-format-indicator=" = [] ∧ c1 "user:" = [] ∧ c1 "=" = [] := by decide
  obtain ⟨htype, hexpiry, hformat, huser, heq⟩ := hlabels
  have hnumbers {α : Type} (l : List α) : l.flatMap (fun _ ↦ ([] : List Char)) = [] := by simp
  simp [propertyParts, propertyStrings, List.flatMap_append, List.flatMap_map, List.flatMap_assoc,
    htype, hexpiry, hformat, huser, heq, hnumbers]

theorem forall_mem_filter_isC1_iff {l : List Char} :
    (∀ c ∈ l.filter isC1, isC1 c = false) ↔ ∀ c ∈ l, isC1 c = false := by
  refine ⟨fun h c hc ↦ Bool.eq_false_iff.2 fun hc1 ↦ ?_,
    fun h c hc ↦ h c (List.mem_of_mem_filter hc)⟩
  exact Bool.false_ne_true ((h c (List.mem_filter.2 ⟨hc, hc1⟩)).symm.trans hc1)

/-- The line of properties is free of C1 controls where the broker's strings in it are. -/
theorem forall_mem_propertyControls_iff (properties : Properties) :
    (∀ c ∈ propertyControls properties, isC1 c = false) ↔
      ∀ s ∈ propertyStrings properties, ∀ c ∈ s.toList, isC1 c = false := by
  have hline : (∀ c ∈ propertyControls properties, isC1 c = false) ↔
      ∀ c ∈ (propertyParts properties).flatMap c1, isC1 c = false := by
    rw [propertyControls]
    split
    next h => simp [h]
    next =>
      rw [← c1_intercalate, List.forall_mem_append, List.forall_mem_singleton]
      exact and_iff_left (by decide)
  rw [hline, flatMap_c1_propertyParts, List.forall_mem_flatMap]
  exact forall₂_congr fun s _ ↦ forall_mem_filter_isC1_iff

/-- No C1 control is shown where the message has none. -/
theorem forall_mem_shown_iff (publish : Publish) (showTopic : Bool) :
    (∀ c ∈ shown publish showTopic, isC1 c = false) ↔ FreeOfC1 publish showTopic := by
  have hpayload : (∀ c ∈ (decodeLossy publish.payload).filter isC1 ++ ['\n'], isC1 c = false) ↔
      ∀ c ∈ decodeLossy publish.payload, isC1 c = false := by
    rw [List.forall_mem_append, forall_mem_filter_isC1_iff, List.forall_mem_singleton]
    exact and_iff_left (by decide)
  rw [shown, List.forall_mem_append, hpayload, and_comm, FreeOfC1]
  refine and_congr_right' ?_
  cases showTopic with
  | false => simp
  | true =>
    simp only [if_true, forall_const, List.forall_mem_append, forall_mem_propertyControls_iff, c1,
      forall_mem_filter_isC1_iff]
    exact and_comm

/-- Where there is no C1 control, only `print_message`'s own line feeds are shown. -/
theorem shown_of_free {publish : Publish} {showTopic : Bool} (h : FreeOfC1 publish showTopic) :
    shown publish showTopic = List.replicate (ownLineFeeds publish showTopic) '\n' := by
  have hnil {l : List Char} (hl : ∀ c ∈ l, isC1 c = false) : l.filter isC1 = [] :=
    List.filter_eq_nil_iff.2 fun c hc ↦ Bool.eq_false_iff.1 (hl c hc)
  rw [shown, hnil h.1]
  cases showTopic with
  | false => rfl
  | true =>
    obtain ⟨htopic, hstrings⟩ := h.2 rfl
    have hline : c1 (" ".intercalate (propertyParts publish.properties)) = [] := by
      rw [c1_intercalate, flatMap_c1_propertyParts, List.flatMap_eq_nil_iff]
      exact fun s hs ↦ hnil (hstrings s hs)
    rw [if_pos rfl, c1, hnil htopic, propertyControls, hline, ownLineFeeds, formatProperties]
    by_cases hparts : propertyParts publish.properties = [] <;> simp [hparts]

/-- **What keeps control characters from a terminal.** Whatever the broker sends, `print_message`
shows the terminal no control character but tab and its own line feeds if and only if there is no
character from U+0080 to U+009F in the payload, and with `--show-topic` none in the topic and in the
strings of the properties that are printed. -/
theorem shielded_iff (publish : Publish) (showTopic : Bool) :
    Shielded publish showTopic ↔ FreeOfC1 publish showTopic := by
  have hcontrols := controls_printMessage publish showTopic
  constructor
  · rintro ⟨out, hout, hlineFeeds⟩
    rw [hout, Option.map_some, Option.some_inj, hlineFeeds] at hcontrols
    rw [← forall_mem_shown_iff, ← hcontrols]
    intro c hc
    rw [List.eq_of_mem_replicate hc]
    decide
  · intro hfree
    obtain ⟨out, hout, hshown⟩ := Option.map_eq_some_iff.1 hcontrols
    exact ⟨out, hout, hshown.trans (shown_of_free hfree)⟩

/-- U+009B introduces a control sequence. Its two bytes are written as they are. -/
theorem not_shielded_csi :
    ¬Shielded
      { dup := false, qos := .atMostOnce, retain := false, topic := "t", packetId := none,
        properties := {}, payload := [0xC2, 0x9B, 0x32, 0x4A] } false := by
  rintro ⟨out, hout, hlineFeeds⟩
  have hbytes : out = [0xC2, 0x9B, 0x32, 0x4A, 0x0A] :=
    (Option.some_inj.1 hout).symm
  have hencode : [0xC2, 0x9B, 0x32, 0x4A, 0x0A] =
      encode [Char.ofNat 0x9B, '2', 'J', '\n'] := by decide
  rw [hbytes, hencode, controls, decodeLossy_encode] at hlineFeeds
  exact absurd hlineFeeds (by decide)

end Terminal

end PulsemqCli
