/-!
# Decimal numerals

The two kinds of unsigned numeral that can be read: a run of digits, which denotes a natural
number, and a run of digits with at most one point, which denotes a non-negative fraction. A point
may stand first or last, as long as there is a digit somewhere.

The value of a numeral is kept exact: a fraction is the natural number that all its digits spell
over the power of ten that its places after the point give. Rounding is a separate step.
-/

namespace PrefixParsing

/-- The natural number that a run of digits spells. -/
def digitsValue (digits : List Char) : Nat := Nat.ofDigitChars 10 digits 0

/-- The shortest run of digits that spells `n`. -/
def digitsOf (n : Nat) : List Char := Nat.toDigits 10 n

/-- An integer in decimal, with a sign if it is negative. -/
def intText (n : Int) : String :=
  String.ofList (if n < 0 then '-' :: digitsOf n.natAbs else digitsOf n.natAbs)

/-- A fraction numeral, by its digits before and after the point. -/
structure Decimal where
  /-- The digits before the point. -/
  whole : List Char
  /-- The digits after the point. -/
  places : List Char
deriving DecidableEq

namespace Decimal

/-- Reads a run of digits and points: there is at most one point, and there is a digit. -/
def ofRun? (run : List Char) : Option Decimal :=
  let whole := run.takeWhile (· ≠ '.')
  let places := (run.dropWhile (· ≠ '.')).drop 1
  if '.' ∈ places ∨ (whole = [] ∧ places = []) then none else some ⟨whole, places⟩

/-- The number that all digits spell, the point left out. -/
def numerator (d : Decimal) : Nat := digitsValue (d.whole ++ d.places)

/-- The power of ten that divides the numerator. -/
def denominator (d : Decimal) : Nat := Nat.pow 10 d.places.length

theorem denominator_pos (d : Decimal) : 0 < d.denominator := Nat.pow_pos (by decide)

end Decimal

end PrefixParsing
