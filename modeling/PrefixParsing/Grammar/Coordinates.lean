import PrefixParsing.Parser

/-!
# Geographic coordinates

Angles in degrees with a compass letter, such as `52.5° N 13.4° E`. A letter stands for a sign, so
that north and east are positive and south and west negative, and an angle is its number times that
sign. The grammars here differ in how they are put together, and with it in the separator between
the two angles and in which letters may follow which number.
-/

namespace PrefixParsing.Grammar

open PrefixParsing.Parser

/-- A letter as a sign: one of `positive` as `1`, one of `negative` as `-1`. -/
def sign (positive negative : List Char) : Parser Binary64 :=
  flatMap anyChar fun letter ↦
    if letter ∈ positive then always Binary64.one
    else if letter ∈ negative then always (-Binary64.one)
    else never

/-- Any of the four compass letters. -/
def cardinal : Parser Binary64 := sign ['N', 'E'] ['S', 'W']

/-- What stands between a number and its letter. -/
def degrees : Parser Unit := literal "° "

/-- Two angles with a space between them. -/
def coordinate : Parser (Binary64 × Binary64) :=
  map (fun (latitude, _, latitudeSign, _, longitude, _, longitudeSign) ↦
      (latitude * latitudeSign, longitude * longitudeSign))
    (zip7 float degrees cardinal (literal " ") float degrees cardinal)

/-- One angle with its parts, or nothing consumed. -/
def attemptedAngle : Parser (Binary64 × Unit × Binary64) := attempt (zip3 float degrees cardinal)

/-- One angle, with any of the four letters. -/
def latitude : Parser Binary64 := lift2 (· * ·) <*> float <* degrees <*> cardinal

/-- One angle, with the letters that belong to its axis. -/
def signed (positive negative : Char) : Parser Binary64 :=
  lift2 (· * ·) <*> float <* degrees <*> sign [positive] [negative]

/-- A latitude and a longitude with a comma between them. -/
def applicativeCoordinate : Parser (Binary64 × Binary64) :=
  lift2 Prod.mk <*> signed 'N' 'S' <* literal ", " <*> signed 'E' 'W'

end PrefixParsing.Grammar
