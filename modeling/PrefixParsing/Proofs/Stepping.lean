import PrefixParsing.Proofs.Loops
import PrefixParsing.Proofs.Sessions

/-!
# Stepping by characters

There are two ways past the next characters of a text. `advance` and `advanceExactly` measure the
characters ahead and move once. A loop over `anyChar` reads them one after the other and moves past
each by its own size. They come to the same place, whatever sizes the characters have.

They differ in what they do when there are not enough characters. `advance` goes as far as it can,
`advanceExactly` does not move, and the loop fails at the end of the text, where it stays.

## Where the two meet

All of them move the cursor past a start of the text ahead, so the place is described by that start
(`Cursor.past`). One step of the loop takes off the first character, and the induction is on the
characters that are passed.
-/

namespace PrefixParsing

/-- The character `x` as an output of `anyChar`. -/
def Component.ofChar (x : Char) : Component := ⟨⟨Parser.anyChar⟩, x⟩

/-! ## Reading characters one after the other -/

namespace Parser

variable {c : Cursor}

theorem run_anyChar_of_nil (h : c.rest = []) : anyChar.run c = ⟨none, c, []⟩ := by
  have hread : Reading.anyChar c.rest = .missing none := by rw [h, Reading.anyChar]
  exact Scan.read_apply_of_missing hread

theorem run_anyChar_of_cons (hc : c.InBounds) {x : Char} {rest : List Char}
    (h : c.rest = [x] ++ rest) : anyChar.run c = ⟨some x, c.past [x], []⟩ := by
  have hread : Reading.anyChar c.rest = .found [x] x := by
    rw [h, List.singleton_append, Reading.anyChar]
  refine (Scan.read_apply_of_found hread).trans ?_
  rw [hc.bump_eq h]
  rfl

/-- Characters that are ahead are read in order, and the cursor is past them then. -/
theorem passes_anyChar (hc : c.InBounds) {chars rest : List Char} (h : c.rest = chars ++ rest) :
    Passes (chars.map Component.ofChar) c (c.past chars) [] := by
  induction chars generalizing c with
  | nil => exact .nil c
  | cons x chars ih =>
    have hrest : c.rest = [x] ++ (chars ++ rest) := h
    have hothers := ih (hc.past hrest) (Cursor.rest_past hrest)
    rw [Cursor.past_past] at hothers
    exact .cons (k := Component.ofChar x) (run_anyChar_of_cons hc hrest) hothers

theorem loop_anyChar (hc : c.InBounds) {m : ℕ} (hm : m ≤ c.rest.length) :
    loop (List.replicate m ⟨anyChar⟩) c =
      ⟨some ((c.rest.take m).map Component.ofChar), c.past (c.rest.take m), []⟩ := by
  have hparsers : ((c.rest.take m).map Component.ofChar).map Component.toAnyParser =
      List.replicate m ⟨anyChar⟩ := by
    rw [List.map_map]
    refine List.eq_replicate_iff.mpr ⟨?_, ?_⟩
    · rw [List.length_map, List.length_take, Nat.min_eq_left hm]
    · intro p hp
      obtain ⟨x, -, rfl⟩ := List.mem_map.mp hp
      rfl
  rw [← hparsers]
  exact (EndsIn.all (passes_anyChar hc (List.take_append_drop m c.rest).symm)).loop_eq

end Parser

/-! ## Stepping over several characters at once -/

namespace Cursor

variable {c c' : Cursor}

theorem advance_eq_past (c : Cursor) (n : ℕ) : c.advance n = c.past (c.rest.take n) :=
  c.advance_eq n

theorem rest_advance (c : Cursor) (n : ℕ) : (c.advance n).rest = c.rest.drop n := by
  rw [advance_eq_past, rest_past (List.take_append_drop n c.rest).symm]

theorem advance_advance (c : Cursor) (m n : ℕ) : (c.advance m).advance n = c.advance (m + n) := by
  rw [advance_eq_past (c.advance m), rest_advance, advance_eq_past, past_past, ← List.take_add,
    ← advance_eq_past]

theorem advance_min_length (c : Cursor) (n : ℕ) :
    c.advance (min n c.rest.length) = c.advance n := by
  rw [advance_eq_past, advance_eq_past, List.take_eq_take_iff.mpr]
  rw [Nat.min_assoc, Nat.min_self]

theorem advanceExactly_add_iff {m n : ℕ} :
    c.advanceExactly (m + n) = .ok c' ↔
      ∃ d, c.advanceExactly m = .ok d ∧ d.advanceExactly n = .ok c' := by
  simp only [advanceExactly_eq_ok_iff]
  constructor
  · rintro ⟨hle, rfl⟩
    refine ⟨c.advance m, ⟨by omega, rfl⟩, ?_, (advance_advance c m n).symm⟩
    rw [rest_advance, List.length_drop]
    omega
  · rintro ⟨d, ⟨hm, rfl⟩, hn, rfl⟩
    rw [rest_advance, List.length_drop] at hn
    exact ⟨by omega, advance_advance c m n⟩

end Cursor

namespace Session

/-- In a session, an exact move that is refused leaves all as it was. -/
theorem step_advanceExactly_eq {ρ : Type} {s : Session} {i : ℕ} {c : Cursor}
    (hc : s.cursors[i]? = some c) (n : ℕ) :
    s.step i (.advanceExactly n : Step (Parser ρ)) =
      if n ≤ c.rest.length then some (.moved (.ok ()), s.put i (c.advance n))
      else some (.moved (.error (.tooFewLeft c.offset n c.rest.length)), s) := by
  have hmove := c.advanceExactly_eq n
  by_cases hn : n ≤ c.rest.length
  · rw [if_pos hn] at hmove ⊢
    simp only [step, hc, Option.bind_eq_bind, Option.bind_some, hmove]
  · rw [if_neg hn] at hmove ⊢
    simp only [step, hc, Option.bind_eq_bind, Option.bind_some, hmove]

end Session

/-- **All ways to step over characters agree.** With `k` characters ahead, `advance n` comes to
where the first `n` of them have been read one after the other, or all `k` if there are no more;
behind these the next reading fails where it stands. `advanceExactly n` does the same if there are
`n` characters, and otherwise it is refused with their number, and nothing changes. A move by a sum
is one move after the other. -/
theorem Cursor.InBounds.steps_agree {c : Cursor} (hc : c.InBounds) :
    let k := c.remaining.toList.length
    (∀ n, loop (List.replicate (min n k) ⟨Parser.anyChar⟩) c =
      ⟨some ((c.remaining.toList.take (min n k)).map Component.ofChar), c.advance n, []⟩) ∧
    Parser.anyChar.run (c.advance k) = ⟨none, c.advance k, []⟩ ∧
    (∀ n, c.advanceExactly n =
      if n ≤ k then .ok (c.advance n) else .error (.tooFewLeft c.offset n k)) ∧
    (∀ {ρ : Type} (s : Session) (i n : ℕ), s.cursors[i]? = some c →
      s.step i (.advanceExactly n : Step (Parser ρ)) =
        if n ≤ k then some (.moved (.ok ()), s.put i (c.advance n))
        else some (.moved (.error (.tooFewLeft c.offset n k)), s)) ∧
    (∀ m n, (c.advance m).advance n = c.advance (m + n)) ∧
    ∀ m n c', c.advanceExactly (m + n) = .ok c' ↔
      ∃ d, c.advanceExactly m = .ok d ∧ d.advanceExactly n = .ok c' := by
  rw [Cursor.remaining, String.toList_ofList]
  refine ⟨?_, ?_, c.advanceExactly_eq, ?_, c.advance_advance, ?_⟩
  · intro n
    rw [Parser.loop_anyChar hc (Nat.min_le_right n _), ← c.advance_eq_past, c.advance_min_length]
  · refine Parser.run_anyChar_of_nil ?_
    rw [c.rest_advance, List.drop_length]
  · intro ρ s i n hi
    exact Session.step_advanceExactly_eq hi n
  · intro m n c'
    exact Cursor.advanceExactly_add_iff

/-- Behind a character of one byte, over characters of two, three and four bytes. -/
theorem Cursor.InBounds.steps_agree_mixed_sizes :
    (⟨"aé€🦀", 1⟩ : Cursor).InBounds ∧ (⟨"aé€🦀", 1⟩ : Cursor).advance 2 = ⟨"aé€🦀", 6⟩ ∧
      loop (List.replicate 2 ⟨Parser.anyChar⟩) ⟨"aé€🦀", 1⟩ =
        ⟨some [Component.ofChar 'é', Component.ofChar '€'], ⟨"aé€🦀", 6⟩, []⟩ ∧
      (⟨"aé€🦀", 1⟩ : Cursor).advanceExactly 4 = .error (.tooFewLeft 1 4 3) ∧
      Session.step ⟨[⟨"aé€🦀", 1⟩], []⟩ 0 (.advanceExactly 4 : Step (Parser Unit)) =
        some (.moved (.error (.tooFewLeft 1 4 3)), ⟨[⟨"aé€🦀", 1⟩], []⟩) := by
  have hc : (⟨"aé€🦀", 1⟩ : Cursor).InBounds := by
    show 1 ≤ "aé€🦀".utf8ByteSize
    decide +kernel
  have hahead : (⟨"aé€🦀", 1⟩ : Cursor).remaining.toList = ['é', '€', '🦀'] := by decide +kernel
  have hadvance : (⟨"aé€🦀", 1⟩ : Cursor).advance 2 = ⟨"aé€🦀", 6⟩ := by decide +kernel
  obtain ⟨hloop, -, hexactly, hstep, -⟩ := hc.steps_agree
  rw [hahead] at hloop hexactly hstep
  have hread := hloop 2
  rw [hadvance] at hread
  exact ⟨hc, hadvance, hread, hexactly 4, hstep ⟨[⟨"aé€🦀", 1⟩], []⟩ 0 4 rfl⟩

end PrefixParsing
