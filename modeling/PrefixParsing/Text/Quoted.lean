import PrefixParsing.Text.Printable

/-!
# Quoted texts

A quoted text stands between two quotes and shows every character in an unambiguous way. Printable
characters stand for themselves. The quote and the backslash take a backslash before them, the four
most common invisible characters have an escape with a letter or a zero, and any other character is
given by its code point in hexadecimal.

Texts are put between double quotes and single characters between apostrophes. In either, only the
quote that surrounds it needs the backslash.
-/

namespace PrefixParsing.Text

/-- How the character `c` is shown between two quotes `quote`. -/
def escape (quote c : Char) : List Char :=
  if c = '\x00' then ['\\', '0']
  else if c = '\t' then ['\\', 't']
  else if c = '\r' then ['\\', 'r']
  else if c = '\n' then ['\\', 'n']
  else if c = '\\' ∨ c = quote then ['\\', c]
  else if isPrintable c then [c]
  else ['\\', 'u', '\x7b'] ++ Nat.toDigits 16 c.toNat ++ ['\x7d']

/-- The characters `cs` between two quotes. -/
def enclose (quote : Char) (cs : List Char) : List Char :=
  quote :: cs.flatMap (escape quote) ++ [quote]

/-- A text between double quotes. -/
def quoteText (s : String) : String := String.ofList (enclose '"' s.toList)

/-- A character between apostrophes. -/
def quoteChar (c : Char) : String := String.ofList (enclose '\x27' [c])

example : quoteText "it's \"so\"\n" = "\"it's \\\"so\\\"\\n\"" := by decide +kernel

example : quoteChar '\x27' = "'\\''" := by decide +kernel

example : quoteText "e\u0301" = "\"e\\u\x7b301\x7d\"" := by decide +kernel

example : quoteText "\u3164\uff9e" = "\"\\u\x7b3164\x7d\uff9e\"" := by decide +kernel

end PrefixParsing.Text
