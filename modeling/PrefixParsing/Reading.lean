import PrefixParsing.Binary64
import PrefixParsing.Decimal
import PrefixParsing.Event
import PrefixParsing.Text.Run

/-!
# Reading the text ahead

A reading looks at the text ahead of a cursor and says whether the text starts with something of a
certain kind: an integer, a fraction, a character, a given text. It only looks. The characters it
found, the lexeme, are part of the answer, and moving past them is left to the cursor.

Numbers take the whole leading run of number characters or nothing. A run that is too large, or has
too many points, is not shortened until it fits; it is reported and refused.
-/

namespace PrefixParsing

open Text

/-- What is found at the start of a text. -/
inductive Reading (α : Type) where
  /-- The text starts with `lexeme`, which stands for `value`. -/
  | found (lexeme : List Char) (value : α)
  /-- The text does not start with what was looked for, and there may be something to report. -/
  | missing (report : Option Event)

namespace Reading

/-- The largest integer that can be read: the largest of 64 bits with sign. -/
def maxInteger : Nat := 0x7FFFFFFFFFFFFFFF

/-- The characters of a fraction numeral. -/
def isFractionChar (c : Char) : Bool := c.isDigit || c == '.'

/-- The integer that the leading run of digits spells. -/
def integer (text : List Char) : Reading Int :=
  let digits := leadingRun Char.isDigit text
  if digits.isEmpty then .missing none
  else if digitsValue digits ≤ maxInteger then .found digits (digitsValue digits)
  else .missing (some (.integerTooLarge (String.ofList digits)))

/-- The number nearest to the fraction that the leading run of digits and points spells. -/
def float (text : List Char) : Reading Binary64 :=
  let run := leadingRun isFractionChar text
  if run.isEmpty then .missing none
  else
    match Decimal.ofRun? run with
    | some d => .found run (Binary64.ofRatio d.numerator d.denominator)
    | none => .missing (some (.malformedFraction (String.ofList run)))

/-- The first character. -/
def anyChar : List Char → Reading Char
  | [] => .missing none
  | c :: _ => .found [c] c

/-- The given text. -/
def literal (expected : String) (text : List Char) : Reading Unit :=
  if expected.toList.isPrefixOf text then .found expected.toList () else .missing none

/-! ## Lexemes are read from the text

Whatever a reading finds is a start of the text that it looked at. -/

theorem leadingRun_append_dropWhile (accept : Char → Bool) (text : List Char) :
    leadingRun accept text ++ text.dropWhile accept = text := by
  rw [leadingRun_eq_takeWhile, List.takeWhile_append_dropWhile]

theorem eq_append_of_integer {text lexeme : List Char} {n : Int}
    (h : integer text = .found lexeme n) : ∃ rest, text = lexeme ++ rest := by
  have hrun := leadingRun_append_dropWhile Char.isDigit text
  simp only [integer] at h
  split at h
  · cases h
  · split at h
    · cases h
      exact ⟨_, hrun.symm⟩
    · cases h

theorem eq_append_of_float {text lexeme : List Char} {x : Binary64}
    (h : float text = .found lexeme x) : ∃ rest, text = lexeme ++ rest := by
  have hrun := leadingRun_append_dropWhile isFractionChar text
  simp only [float] at h
  split at h
  · cases h
  · split at h
    · cases h
      exact ⟨_, hrun.symm⟩
    · cases h

theorem eq_append_of_anyChar {text lexeme : List Char} {c : Char}
    (h : anyChar text = .found lexeme c) : ∃ rest, text = lexeme ++ rest := by
  cases text with
  | nil => cases h
  | cons d rest =>
    cases h
    exact ⟨rest, rfl⟩

theorem eq_append_of_literal {expected : String} {text lexeme : List Char} {u : Unit}
    (h : literal expected text = .found lexeme u) : ∃ rest, text = lexeme ++ rest := by
  rw [literal] at h
  split at h
  case isTrue hstart =>
    cases h
    obtain ⟨rest, hrest⟩ := List.isPrefixOf_iff_prefix.mp hstart
    exact ⟨rest, hrest.symm⟩
  case isFalse => cases h

end Reading

end PrefixParsing
