import Mathlib.Data.List.Basic
import Mathlib.Order.Nat

/-!
# Interrupted readers

A format writes items as strings of symbols, so that a reader that takes one symbol after another
knows when it has read an item. `scan` is such a reader, one read after another, over a stream in
which a read in progress may be interrupted: the symbols it has taken are gone, and the next read
begins where it stopped. Each item comes with the position its read began at.

`scan_eq_entries_iff` says that a reader makes of a stream what was written, each item at its own
position, exactly if every interruption falls between two items.

A `Format` is given by what it makes of the symbols held: an item, a demand for more, or an error.
It is asked that an item's own encoding is read as the item, and that no beginning of it is anything
but a demand for more. This makes the reader take exactly the symbols of an item, and is what rules
out a format whose end can only be told from what follows.

The only property needed of `scan` for the positive direction is that reading in one go or in two is
the same (`scan_append`), so that the symbols between two interruptions can be treated together. For
the negative direction one interruption within an item suffices: the reader goes on in the middle of
it, and whatever it returns begins later than the item did (`le_of_mem_scan`).
-/

namespace Framing

variable {β π ε : Type}

/-- What a reader makes of the symbols of a read. -/
inductive Progress (π ε : Type) where
  | more
  | item (p : π)
  | failed (e : ε)

/-- A format, and the items it can write. A reader takes all symbols of an item and no more. -/
structure Format (β π ε : Type) where
  Valid : π → Prop
  encode : π → List β
  parse : List β → Progress π ε
  encode_ne_nil : ∀ p, Valid p → encode p ≠ []
  parse_encode : ∀ p, Valid p → parse (encode p) = .item p
  parse_prefix : ∀ p, Valid p → ∀ bs, bs <+: encode p → bs ≠ encode p → parse bs = .more

/-- A symbol, or an interruption. -/
inductive Signal (β : Type) where
  | symbol (b : β)
  | interrupt

variable (f : Format β π ε)

/-- A stream of items. -/
def encodeAll (ps : List π) : List β :=
  ps.flatMap f.encode

/-- The items of a stream that begins at position `off`, with their positions. -/
def entries : ℕ → List π → List (ℕ × π)
  | _, [] => []
  | off, p :: ps => (off, p) :: entries (off + (f.encode p).length) ps

/-- The symbols of a stream with interruptions. -/
def symbols (evs : List (Signal β)) : List β :=
  evs.filterMap fun
    | .symbol b => some b
    | .interrupt => none

/-- What a reader makes of a stream, where the read in progress began at `off` and has taken the
symbols `held`. -/
def scan : ℕ → List β → List (Signal β) → List (ℕ × π)
  | _, _, [] => []
  | off, held, .symbol b :: rest =>
    match f.parse (held ++ [b]) with
    | .more => scan off (held ++ [b]) rest
    | .item p => (off, p) :: scan (off + (held.length + 1)) [] rest
    | .failed _ => []
  | off, held, .interrupt :: rest => scan (off + held.length) [] rest

/-- What a read takes from the symbols at hand. -/
inductive Taken (β π ε : Type) where
  /-- All of them, and it needs more. -/
  | more (held : List β)
  /-- An item, and the rest is left. -/
  | item (p : π) (rest : List β)
  | failed (e : ε)

/-- Continue a read with the symbols at hand. -/
def take : List β → List β → Taken β π ε
  | held, [] => .more held
  | held, b :: rest =>
    match f.parse (held ++ [b]) with
    | .more => take (held ++ [b]) rest
    | .item p => .item p rest
    | .failed e => .failed e

/-- After `held`, every interruption falls between two items of the stream. -/
def Aligned (held : List β) (ps : List π) (evs : List (Signal β)) : Prop :=
  ∀ pre post, evs = pre ++ .interrupt :: post →
    ∃ qs, qs <+: ps ∧ held ++ symbols pre = encodeAll f qs

/-! ### Streams -/

@[simp] theorem encodeAll_nil : encodeAll f [] = [] := rfl

@[simp]
theorem encodeAll_cons (p : π) (ps : List π) :
    encodeAll f (p :: ps) = f.encode p ++ encodeAll f ps :=
  List.flatMap_cons

@[simp] theorem symbols_nil : symbols ([] : List (Signal β)) = [] := rfl

@[simp]
theorem symbols_cons_symbol (b : β) (evs : List (Signal β)) :
    symbols (.symbol b :: evs) = b :: symbols evs := rfl

@[simp]
theorem symbols_cons_interrupt (evs : List (Signal β)) :
    symbols (.interrupt :: evs) = symbols evs := rfl

/-- Symbols are those of either part. -/
@[simp]
theorem symbols_append (evs evs' : List (Signal β)) :
    symbols (evs ++ evs') = symbols evs ++ symbols evs' :=
  List.filterMap_append

/-- A stream without an interruption is its symbols. -/
@[simp]
theorem symbols_map_symbol (bs : List β) : symbols (bs.map .symbol) = bs := by
  induction bs with
  | nil => rfl
  | cons b bs ih => exact congrArg (b :: ·) ih

/-! ### Reading in one go or in two -/

variable {f} in
/-- What a read leaves of the symbols at hand. -/
theorem length_rest_le {held bs rest : List β} {p : π} (h : take f held bs = .item p rest) :
    rest.length ≤ bs.length := by
  induction bs generalizing held with
  | nil => cases h
  | cons b bs ih =>
    rw [take] at h
    split at h
    · exact (ih h).trans (Nat.le_succ _)
    · cases h
      exact Nat.le_succ _
    · cases h

variable {f} in
/-- A read that needs more holds all of the symbols at hand. -/
theorem eq_append_of_take {held bs held' : List β} (h : take f held bs = .more held') :
    held' = held ++ bs := by
  induction bs generalizing held with
  | nil =>
    rw [take, Taken.more.injEq] at h
    rw [← h, List.append_nil]
  | cons b bs ih =>
    rw [take] at h
    split at h
    · rw [ih h, List.append_assoc]
      rfl
    · cases h
    · cases h

/-- A reader goes on with the symbols at hand as the read in progress takes them. -/
theorem scan_append (off : ℕ) (held bs : List β) (evs : List (Signal β)) :
    scan f off held (bs.map .symbol ++ evs) =
      match take f held bs with
      | .more held' => scan f off held' evs
      | .item p rest => (off, p) ::
          scan f (off + (held.length + (bs.length - rest.length))) [] (rest.map .symbol ++ evs)
      | .failed _ => [] := by
  induction bs generalizing held with
  | nil => rfl
  | cons b bs ih =>
    rw [List.map_cons, List.cons_append, scan, take]
    rcases f.parse (held ++ [b]) with - | p | e
    · simp only [ih]
      rcases htake : take f (held ++ [b]) bs with held' | ⟨p, rest⟩ | e
      · rfl
      · have hle := length_rest_le htake
        simp only [List.length_append, List.length_cons, List.length_nil]
        rw [show held.length + (0 + 1) + (bs.length - rest.length) =
          held.length + (bs.length + 1 - rest.length) by omega]
      · rfl
    · simp
    · rfl

/-! ### Alignment -/

variable {f} {off : ℕ} {held : List β} {ps : List π} {evs : List (Signal β)} {b : β} {p : π}

theorem aligned_cons_symbol :
    Aligned f held ps (.symbol b :: evs) ↔ Aligned f (held ++ [b]) ps evs := by
  constructor
  · intro h pre post hevs
    obtain ⟨qs, hqs, heq⟩ := h (.symbol b :: pre) post (by rw [hevs]; rfl)
    exact ⟨qs, hqs, by simpa using heq⟩
  · intro h pre post hevs
    rcases pre with - | ⟨e, pre⟩
    · cases hevs
    · obtain ⟨rfl, hrest⟩ := List.cons_eq_cons.1 hevs
      obtain ⟨qs, hqs, heq⟩ := h pre post hrest
      exact ⟨qs, hqs, by simpa using heq⟩

/-- An interruption between two items does not matter. -/
theorem aligned_cons_interrupt : Aligned f [] ps (.interrupt :: evs) ↔ Aligned f [] ps evs := by
  constructor
  · intro h pre post hevs
    exact h (.interrupt :: pre) post (by rw [hevs]; rfl)
  · intro h pre post hevs
    rcases pre with - | ⟨e, pre⟩
    · exact ⟨[], List.nil_prefix, rfl⟩
    · obtain ⟨rfl, hrest⟩ := List.cons_eq_cons.1 hevs
      exact h pre post hrest

/-- Once an item is read, alignment is with the items after it. -/
theorem aligned_encode (hp : f.Valid p) :
    Aligned f (f.encode p) (p :: ps) evs ↔ Aligned f [] ps evs := by
  refine forall₃_congr fun pre post _ ↦ ⟨?_, ?_⟩
  · rintro ⟨qs, hqs, heq⟩
    rcases qs with - | ⟨q, qs⟩
    · exact absurd (List.append_eq_nil_iff.1 heq).1 (f.encode_ne_nil p hp)
    · obtain ⟨rfl, hrest⟩ := List.cons_prefix_cons.1 hqs
      exact ⟨qs, hrest, List.append_cancel_left (heq.trans (encodeAll_cons f q qs))⟩
  · rintro ⟨qs, hqs, heq⟩
    refine ⟨p :: qs, List.cons_prefix_cons.2 ⟨rfl, hqs⟩, ?_⟩
    rw [encodeAll_cons, ← heq, List.nil_append]

/-- Within an item there is no boundary. -/
theorem not_aligned_cons_interrupt (hheld : held ≠ [])
    (hlt : ∀ p qs, ps = p :: qs → held.length < (f.encode p).length) :
    ¬Aligned f held ps (.interrupt :: evs) := by
  intro h
  obtain ⟨qs, hqs, heq⟩ := h [] evs rfl
  rw [symbols_nil, List.append_nil] at heq
  rcases qs with - | ⟨q, qs⟩
  · exact hheld heq
  · obtain ⟨rest, rfl⟩ := hqs
    have hlength := hlt q (qs ++ rest) rfl
    rw [heq, encodeAll_cons, List.length_append] at hlength
    omega

/-- A reader returns nothing from before the read in progress. -/
theorem le_of_mem_scan {e : ℕ × π} (h : e ∈ scan f off held evs) : off ≤ e.1 := by
  induction evs generalizing off held with
  | nil => cases h
  | cons ev evs ih =>
    rcases ev with b | -
    · rw [scan] at h
      split at h
      · exact ih h
      · rcases List.mem_cons.1 h with rfl | h
        · exact le_rfl
        · have := ih h
          omega
      · cases h
    · have := ih h
      omega

/-- **A reader makes of a stream what was written exactly if every interruption falls between two
items**, where the read in progress stands within the first of them. -/
theorem scan_eq_entries_iff (hps : ∀ p ∈ ps, f.Valid p)
    (hstream : held ++ symbols evs = encodeAll f ps)
    (hlt : ∀ p qs, ps = p :: qs → held.length < (f.encode p).length) :
    scan f off held evs = entries f off ps ↔ Aligned f held ps evs := by
  -- On the stream; the read in progress always stands within the first item still to come.
  induction evs generalizing off held ps with
  | nil =>
    rw [symbols_nil, List.append_nil] at hstream
    rcases ps with - | ⟨p, ps⟩
    · exact iff_of_true rfl fun pre post h ↦ absurd h (by simp)
    · have hlength := hlt p ps rfl
      rw [hstream, encodeAll_cons, List.length_append] at hlength
      omega
  | cons ev evs ih =>
    rcases ev with b | -
    · rw [symbols_cons_symbol] at hstream
      rcases ps with - | ⟨p, ps⟩
      · exact absurd hstream (by simp)
      have hp : f.Valid p := hps p List.mem_cons_self
      have hlength := hlt p ps rfl
      have hinit : held ++ [b] <+: f.encode p := by
        have hheld : held ++ [b] <+: encodeAll f (p :: ps) :=
          ⟨symbols evs, by simpa using hstream⟩
        have hitem : f.encode p <+: encodeAll f (p :: ps) := List.prefix_append _ _
        refine List.prefix_of_prefix_length_le hheld hitem ?_
        rw [List.length_append, List.length_singleton]
        omega
      rw [aligned_cons_symbol, scan]
      by_cases heq : held ++ [b] = f.encode p
      · have hlast : held.length + 1 = (f.encode p).length := by
          rw [← heq, List.length_append, List.length_singleton]
        have hrest : [] ++ symbols evs = encodeAll f ps := by
          have hboth : f.encode p ++ symbols evs = f.encode p ++ encodeAll f ps := by
            rw [← heq]
            simpa [← heq] using hstream
          exact List.append_cancel_left hboth
        rw [heq, f.parse_encode p hp, hlast, aligned_encode hp]
        refine (List.cons_inj_right (off, p)).trans
          (ih (fun q hq ↦ hps q (List.mem_cons_of_mem _ hq)) hrest ?_)
        rintro q qs rfl
        exact List.length_pos_of_ne_nil
          (f.encode_ne_nil q (hps q (List.mem_cons_of_mem _ List.mem_cons_self)))
      · rw [f.parse_prefix p hp _ hinit heq]
        refine ih hps (by simpa using hstream) ?_
        intro q qs hqs
        obtain ⟨rfl, -⟩ := List.cons_eq_cons.1 hqs
        exact lt_of_le_of_ne hinit.length_le fun h ↦ heq (hinit.eq_of_length h)
    · rw [symbols_cons_interrupt] at hstream
      by_cases hheld : held = []
      · subst hheld
        rw [aligned_cons_interrupt]
        exact ih hps hstream hlt
      · refine iff_of_false (fun h ↦ ?_) (not_aligned_cons_interrupt hheld hlt)
        -- The item interrupted cannot be read from its beginning any more.
        rcases ps with - | ⟨p, ps⟩
        · exact hheld (List.append_eq_nil_iff.1 hstream).1
        · have hmem : (off, p) ∈ scan f off held (.interrupt :: evs) := by
            rw [h]
            exact List.mem_cons_self
          have hle : off + held.length ≤ off :=
            le_of_mem_scan (show (off, p) ∈ scan f (off + held.length) [] evs from hmem)
          have hpos := List.length_pos_of_ne_nil hheld
          omega

end Framing
