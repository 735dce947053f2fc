import PrefixParsing.Parser

/-!
# Small notations

Parsers for short everyday notations: ranges, versions, pairs, a number in parentheses. They show
the combinators at work, each in one of the ways in which a notation can be put together.
-/

namespace PrefixParsing.Grammar

open PrefixParsing.Parser

/-- Two integers with two points between them. -/
def range : Parser (Int × Int) := lift2 Prod.mk <*> integer <* literal ".." <*> integer

/-- An integer after a sign, which is required. -/
def signedInteger : Parser Int :=
  flatMap anyChar operator <*> integer
where
  /-- The function that a sign stands for. -/
  operator (c : Char) : Parser (Int → Int) :=
    if c = '-' then always fun n ↦ -n else if c = '+' then always fun n ↦ n else never

/-- No function to apply, so no match. -/
def neverApplied : Parser Int := (never : Parser (Int → Int)) <*> integer

/-- An integer in parentheses. -/
def parenthesized : Parser Int := literal "(" >>> integer <<< literal ")"

/-- An integer in parentheses, its structure shown. -/
def parenthesizedOpen : Parser Int := literal "(" *> integer <* literal ")"

/-- A character before an exclamation mark. -/
def bang : Parser Char := anyChar <<< literal "!"

/-- An integer and the character after it. -/
def countedChar : Parser (Int × Char) :=
  flatMap integer fun n ↦ map (fun c ↦ (n, c)) anyChar

/-- Whether the next character is a capital letter. -/
def isCapital : Parser Bool := always Char.isUpper <*> anyChar

/-- An integer, announced. -/
def numberText : Parser String := map (fun n ↦ "Number: " ++ intText n) integer

/-- Two integers with a comma between them. -/
def pair : Parser (Int × Int) :=
  map (fun ((first, _), second) ↦ (first, second)) (zip (zip integer (literal ",")) integer)

/-- A character, an integer and a character, grouped to the left. -/
def nested : Parser ((Char × Int) × Char) := zip (zip anyChar integer) anyChar

/-- Three integers with points between them. -/
def version : Parser (Int × Unit × Int × Unit × Int) :=
  zip5 integer (literal ".") integer (literal ".") integer

end PrefixParsing.Grammar
