import PrefixParsing.Blueprint
import PrefixParsing.Text.Quoted

/-!
# Descriptions

A one-line text for cursors, checkpoints, errors and those parsers that hold no functions. A thing
without parts is described by its name. A thing with parts is described as a record: the name, and
between braces the parts with their labels.

Parsers are described by their structure. A sealed parser shows none of it. A parser that keeps only
some of the outputs of a sequence is described as a record around that sequence.
-/

namespace PrefixParsing

open Text

/-- A name with labelled parts. -/
def record (name : String) (parts : List (String × String)) : String :=
  name ++ " \x7b " ++ ", ".intercalate (parts.map fun part ↦ part.1 ++ ": " ++ part.2) ++ " \x7d"

/-- A natural number in decimal. -/
def natText (n : Nat) : String := String.ofList (digitsOf n)

def Checkpoint.describe (saved : Checkpoint) : String :=
  record "Checkpoint" [("offset", natText saved.offset)]

def Cursor.describe (c : Cursor) : String :=
  record "Cursor" [("source", quoteText c.source), ("offset", natText c.offset)]

namespace Cursor.Error

/-- The name of the kind of error. -/
def name : Error → String
  | atEnd _ => "CannotReadValueAtEnd"
  | tooFewLeft _ _ _ => "UnexpectedEndOfInput"

def describe : Error → String
  | e@(atEnd offset) => record e.name [("offset", natText offset)]
  | e@(tooFewLeft offset requested available) =>
    record e.name
      [("offset", natText offset), ("requested", natText requested),
        ("available", natText available)]

end Cursor.Error

/-- The description of a scalar. -/
def Value.describe? : Value → Option String
  | unit => some "()"
  | bool b => some (if b then "true" else "false")
  | int n => some (intText n)
  | char c => some (quoteChar c)
  | str s => some (quoteText s)
  | _ => none

namespace Blueprint

/-- The description of a parser, if it holds no functions. -/
def describe? : Blueprint → Option String
  | integer => some "IntegerParser"
  | float => some "FloatParser"
  | anyChar => some "AnyCharParser"
  | never => some "Never"
  | literal expected => some (record "LiteralParser" [("expected", quoteText expected)])
  | always value => do some (record "Always" [("value", ← value.describe?)])
  | attempt p => do some (record "Attempt" [("parser", ← p.describe?)])
  | zip p q => do some (record "Zip" [("a", ← p.describe?), ("b", ← q.describe?)])
  | zip3 p q r => do
    some (record "Zip3" [("a", ← p.describe?), ("b", ← q.describe?), ("c", ← r.describe?)])
  | zip4 p q r s => do
    some (record "Zip4"
      [("a", ← p.describe?), ("b", ← q.describe?), ("c", ← r.describe?), ("d", ← s.describe?)])
  | zip5 p q r s t => do
    some (record "Zip5"
      [("a", ← p.describe?), ("b", ← q.describe?), ("c", ← r.describe?), ("d", ← s.describe?),
        ("e", ← t.describe?)])
  | zip6 p q r s t u => do
    some (record "Zip6"
      [("a", ← p.describe?), ("b", ← q.describe?), ("c", ← r.describe?), ("d", ← s.describe?),
        ("e", ← t.describe?), ("f", ← u.describe?)])
  | zip7 p q r s t u v => do
    some (record "Zip7"
      [("a", ← p.describe?), ("b", ← q.describe?), ("c", ← r.describe?), ("d", ← s.describe?),
        ("e", ← t.describe?), ("f", ← u.describe?), ("g", ← v.describe?)])
  | keepLeft p q => do
    some (around "KeepAndSkip" (← p.describe?) (← q.describe?))
  | keepRight p q => do
    some (around "SkipAndKeep" (← p.describe?) (← q.describe?))
  | skipBoth p q => do
    some (around "SkipAndSkip" (← p.describe?) (← q.describe?))
  | apply p q => do
    some (around "Apply" (← p.describe?) (← q.describe?))
  | sealed _ => some "BoxedParser \x7b .. \x7d"
  | map _ _ | flatMap _ _ | zipWith _ _ _ => none
where
  /-- A record around the sequence of two parsers. -/
  around (name first second : String) : String :=
    record name [("zip", record "Zip" [("a", first), ("b", second)])]

end Blueprint

end PrefixParsing
