import PrefixParsing.Text.Bytes

/-!
# Cursors

A cursor is a place in a text: the text as a whole, and an offset into it in bytes. It shows the
text ahead, steps over characters, and can be sent back to an offset that was saved before.

## Offsets are unchecked

An offset may come from a checkpoint that was taken in another text, so nothing in the type says
that it lies between two characters. Such a cursor sees nothing ahead (`rest` is empty) although it
is not at the end of its text (`isEmpty` compares the offset with the size). The operations are
total there too, and every law about them is stated with the hypotheses that it needs: `InBounds`,
that the offset is at most the size, and `OnBoundary`, that it lies between two characters.
-/

namespace PrefixParsing

open Text

/-- A saved offset. -/
structure Checkpoint where
  /-- The offset at which the checkpoint was taken. -/
  offset : Nat
deriving DecidableEq

/-- A place in a text. -/
structure Cursor where
  /-- The whole text. -/
  source : String
  /-- The number of bytes before the place. -/
  offset : Nat
deriving DecidableEq

/-- Why a cursor cannot do what it is asked. -/
inductive Cursor.Error where
  /-- There is no character at `offset`. -/
  | atEnd (offset : Nat)
  /-- At `offset`, `requested` characters were asked for and only `available` are there. -/
  | tooFewLeft (offset requested available : Nat)
deriving DecidableEq

namespace Cursor.Error

/-- Where the cursor stood. -/
def offset : Error → Nat
  | atEnd offset => offset
  | tooFewLeft offset _ _ => offset

/-- The wording of an error. -/
def message : Error → String
  | atEnd offset => s!"cannot read a character at end of input (offset {offset})"
  | tooFewLeft offset requested available =>
    s!"unexpected end of input: requested {requested} characters but only {available} remain " ++
      s!"(offset {offset})"

end Cursor.Error

namespace Cursor

/-- The cursor at the start of `source`. -/
def start (source : String) : Cursor := ⟨source, 0⟩

/-- Number of bytes of the whole text. -/
def size (c : Cursor) : Nat := c.source.utf8ByteSize

/-- The characters before and after the cursor, if it stands between two characters. -/
def parts? (c : Cursor) : Option (List Char × List Char) := cut c.offset c.source.toList

/-- The characters before the cursor. -/
def passed (c : Cursor) : List Char := (c.parts?.map Prod.fst).getD []

/-- The characters ahead of the cursor. -/
def rest (c : Cursor) : List Char := (c.parts?.map Prod.snd).getD []

/-- The text ahead of the cursor. -/
def remaining (c : Cursor) : String := String.ofList c.rest

/-- The cursor has reached the end of its text. -/
def isEmpty (c : Cursor) : Bool := c.size ≤ c.offset

/-- The next character. -/
def peek? (c : Cursor) : Option Char := c.rest.head?

/-- The next character, or the reason why there is none. -/
def value (c : Cursor) : Except Error Char :=
  match c.peek? with
  | some x => .ok x
  | none => .error (.atEnd c.offset)

/-- The text together with the offset. -/
def position (c : Cursor) : String × Nat := (c.source, c.offset)

/-! ## Moving -/

/-- Steps over `n` characters, or over all that are left if they are fewer. -/
def advance (c : Cursor) (n : Nat) : Cursor :=
  { c with offset := c.offset + (firstSize? n c.rest).getD (byteSize c.rest) }

/-- Steps over exactly `n` characters. -/
def advanceExactly (c : Cursor) (n : Nat) : Except Error Cursor :=
  match firstSize? n c.rest with
  | some k => .ok { c with offset := c.offset + k }
  | none => .error (.tooFewLeft c.offset n c.rest.length)

/-- Steps over `k` bytes that have already been matched, at most to the end of the text. -/
def bump (c : Cursor) (k : Nat) : Cursor := { c with offset := min (c.offset + k) c.size }

/-- Saves the offset. -/
def checkpoint (c : Cursor) : Checkpoint := ⟨c.offset⟩

/-- Goes to a saved offset, at most to the end of the text. -/
def restore (c : Cursor) (saved : Checkpoint) : Cursor :=
  { c with offset := min saved.offset c.size }

/-! ## Where a cursor may stand -/

/-- The offset is at most the size of the text. -/
def InBounds (c : Cursor) : Prop := c.offset ≤ c.size

/-- The cursor stands between two characters, or at an end of its text. -/
def OnBoundary (c : Cursor) : Prop := IsBoundary c.source.toList c.offset

theorem size_eq (c : Cursor) : c.size = byteSize c.source.toList := utf8ByteSize_eq c.source

theorem onBoundary_start (source : String) : (start source).OnBoundary := isBoundary_zero _

theorem OnBoundary.inBounds {c : Cursor} (h : c.OnBoundary) : c.InBounds := by
  rw [InBounds, size_eq]
  exact h.le_byteSize

@[simp] theorem rest_start (source : String) : (start source).rest = source.toList := by
  simp [start, rest, parts?]

/-- On a boundary the two parts make up the text, and the first has as many bytes as the offset. -/
theorem OnBoundary.parts {c : Cursor} (h : c.OnBoundary) :
    c.source.toList = c.passed ++ c.rest ∧ byteSize c.passed = c.offset := by
  obtain ⟨a, b, hsource, hsize⟩ := h
  have hcut : c.parts? = some (a, b) := cut_eq_some_iff.mpr ⟨hsource, hsize⟩
  simp [passed, rest, hcut, hsource, hsize]

theorem rest_eq_nil_of_not_onBoundary {c : Cursor} (h : ¬ c.OnBoundary) : c.rest = [] := by
  have hcut : c.parts? = none := cut_eq_none_iff.mpr h
  simp [rest, hcut]

theorem OnBoundary.size_eq_add {c : Cursor} (h : c.OnBoundary) :
    c.size = c.offset + byteSize c.rest := by
  obtain ⟨hsource, hsize⟩ := h.parts
  rw [size_eq, hsource, byteSize_append, hsize]

/-- There is never more ahead than the text holds beyond the offset. -/
theorem InBounds.offset_add_byteSize_rest_le {c : Cursor} (h : c.InBounds) :
    c.offset + byteSize c.rest ≤ c.size := by
  by_cases hb : c.OnBoundary
  · exact Nat.le_of_eq hb.size_eq_add.symm
  · rw [rest_eq_nil_of_not_onBoundary hb]
    exact h

/-- A cursor is at the end of its text exactly when it is on a boundary and nothing is ahead. -/
theorem OnBoundary.isEmpty_iff {c : Cursor} (h : c.OnBoundary) : c.isEmpty ↔ c.rest = [] := by
  rw [isEmpty, decide_eq_true_iff, h.size_eq_add, ← byteSize_eq_zero]
  omega

/-! ## What moving does to the view -/

/-- Moving past characters that are ahead leaves the others ahead. This holds off the boundaries
too, where no characters are ahead. -/
theorem rest_of_rest_eq_append {c : Cursor} {a b : List Char} (h : c.rest = a ++ b) :
    ({ c with offset := c.offset + byteSize a } : Cursor).rest = b := by
  by_cases hb : c.OnBoundary
  · obtain ⟨hsource, hsize⟩ := hb.parts
    have hcut : cut (c.offset + byteSize a) c.source.toList = some (c.passed ++ a, b) := by
      rw [cut_eq_some_iff, hsource, h, byteSize_append, hsize]
      exact ⟨(List.append_assoc _ _ _).symm, rfl⟩
    simp [rest, parts?, hcut]
  · have hnil : a ++ b = [] := h.symm.trans (rest_eq_nil_of_not_onBoundary hb)
    obtain ⟨rfl, rfl⟩ := List.append_eq_nil_iff.mp hnil
    exact h

theorem OnBoundary.of_rest_eq_append {c : Cursor} (hb : c.OnBoundary) {a b : List Char}
    (h : c.rest = a ++ b) : ({ c with offset := c.offset + byteSize a } : Cursor).OnBoundary := by
  obtain ⟨hsource, hsize⟩ := hb.parts
  refine ⟨c.passed ++ a, b, ?_, ?_⟩
  · rw [hsource, h, List.append_assoc]
  · rw [byteSize_append, hsize]

/-- The bound of `bump` is never reached by characters that are ahead. -/
theorem InBounds.bump_eq {c : Cursor} (hc : c.InBounds) {a b : List Char} (h : c.rest = a ++ b) :
    c.bump (byteSize a) = { c with offset := c.offset + byteSize a } := by
  have hle := hc.offset_add_byteSize_rest_le
  rw [h, byteSize_append] at hle
  rw [bump, Nat.min_eq_left (by omega)]

theorem advance_eq (c : Cursor) (n : Nat) :
    c.advance n = { c with offset := c.offset + byteSize (c.rest.take n) } := by
  rw [advance, firstSize?_eq]
  split
  case isTrue => rfl
  case isFalse h => rw [List.take_of_length_le (by omega), Option.getD_none]

theorem advanceExactly_eq (c : Cursor) (n : Nat) :
    c.advanceExactly n =
      if n ≤ c.rest.length then .ok (c.advance n)
      else .error (.tooFewLeft c.offset n c.rest.length) := by
  rw [advanceExactly, advance_eq, firstSize?_eq]
  by_cases h : n ≤ c.rest.length
  · rw [if_pos h, if_pos h]
  · rw [if_neg h, if_neg h]

theorem advanceExactly_eq_ok_iff {c c' : Cursor} {n : Nat} :
    c.advanceExactly n = .ok c' ↔ n ≤ c.rest.length ∧ c' = c.advance n := by
  rw [advanceExactly_eq]
  split
  case isTrue hn =>
    rw [Except.ok.injEq, eq_comm]
    exact (and_iff_right hn).symm
  case isFalse hn =>
    constructor
    · intro h
      cases h
    · rintro ⟨hle, -⟩
      exact absurd hle hn

/-- Going back to a checkpoint undoes every move of the offset. -/
theorem InBounds.restore_checkpoint {c c' : Cursor} (hc : c.InBounds)
    (hsource : c'.source = c.source) : c'.restore c.checkpoint = c := by
  have hsize : c'.size = c.size := by rw [size, size, hsource]
  rw [restore, checkpoint, hsize, Nat.min_eq_left hc, hsource]

end Cursor

end PrefixParsing
