import PrefixParsing.Grammar.Coordinates
import PrefixParsing.Grammar.Notations
import PrefixParsing.Value

/-!
# The catalogue of grammars

The grammars of this library under the names by which they can be asked for, with their outputs as
dynamic values.
-/

namespace PrefixParsing.Grammar

open PrefixParsing.Parser

/-- The grammars by name. -/
def catalogue : List (String × Parser Value) :=
  [("coordinate", map floats coordinate),
    ("attempt_coordinate",
      map (fun (angle, _, factor) ↦ .tuple [.float angle, .unit, .float factor]) attemptedAngle),
    ("cardinal", map .float cardinal),
    ("latitude", map .float latitude),
    ("applicative_coordinate", map floats applicativeCoordinate),
    ("range", map ints range),
    ("sign_operator", map .int signedInteger),
    ("never_fn", map .int neverApplied),
    ("parenthesized", map .int parenthesized),
    ("parenthesized_fn", map .int parenthesizedOpen),
    ("bang", map .char bang),
    ("length_prefix", map (fun (n, c) ↦ .tuple [.int n, .char c]) countedChar),
    ("is_upper", map .bool isCapital),
    ("number_text", map .str numberText),
    ("pair", map ints pair),
    ("nested_zip",
      map (fun ((c, n), d) ↦ .tuple [.tuple [.char c, .int n], .char d]) nested),
    ("version",
      map (fun (major, _, minor, _, patch) ↦
          .tuple [.int major, .unit, .int minor, .unit, .int patch])
        version)]
where
  floats (xs : Binary64 × Binary64) : Value := .tuple [.float xs.1, .float xs.2]
  ints (ns : Int × Int) : Value := .tuple [.int ns.1, .int ns.2]

/-- The grammar of a name. -/
def find? (name : String) : Option (Parser Value) := catalogue.lookup name

end PrefixParsing.Grammar
