import PrefixParsing.Parser
import PrefixParsing.Value

/-!
# Blueprints

A blueprint is a parser written down as data: a tree without functions in it, which can be read from
a file, compared and printed. The functions that `map` and its kin need come from the library of
dynamic values, and the parser that follows a value is chosen by one of a few continuations.

`Blueprint.parser` builds the parser, whose outputs are dynamic values. Sequences of several
parsers produce flat tuples, and what recognises a fixed text produces the unit value.
-/

namespace PrefixParsing

mutual

/-- A parser as data. -/
inductive Blueprint where
  | integer
  | float
  | anyChar
  | literal (expected : String)
  | always (value : Value)
  | never
  | map (f : Unary) (p : Blueprint)
  | flatMap (p : Blueprint) (next : Continuation)
  | zip (p q : Blueprint)
  | zip3 (p q r : Blueprint)
  | zip4 (p q r s : Blueprint)
  | zip5 (p q r s t : Blueprint)
  | zip6 (p q r s t u : Blueprint)
  | zip7 (p q r s t u v : Blueprint)
  | zipWith (f : Binary) (p q : Blueprint)
  | keepLeft (p q : Blueprint)
  | keepRight (p q : Blueprint)
  | skipBoth (p q : Blueprint)
  | apply (p q : Blueprint)
  | attempt (p : Blueprint)
  | sealed (p : Blueprint)

/-- How the value of one parser chooses the next. -/
inductive Continuation where
  /-- Always the same parser. -/
  | const (next : Blueprint)
  /-- Nothing more to parse: a function of the value. -/
  | pure (f : Unary)
  /-- A parser whose output is combined with the value. -/
  | combine (f : Binary) (next : Blueprint)
  /-- The same text again. -/
  | same
  /-- As many times as the value says. -/
  | times (next : Blueprint)
  /-- By comparison of the value with others. -/
  | switch (arms : Arms)

/-- The arms of a choice, tried in order. -/
inductive Arms where
  /-- What is left when no arm fits. -/
  | otherwise (p : Blueprint)
  /-- The parser for one value, and the arms after it. -/
  | arm (value : Value) (p : Blueprint) (rest : Arms)

end

namespace Value

/-- The parser that recognises the text of a value and produces the unit value. Values other than
characters, texts and integers have no text to recognise. -/
def textParser : Value → Parser Value
  | char c => Parser.map (fun _ ↦ unit) (.literal (String.singleton c))
  | str s => Parser.map (fun _ ↦ unit) (.literal s)
  | int n => Parser.map (fun _ ↦ unit) (.literal (intText n))
  | _ => .never

/-- How many repetitions a value stands for. -/
def repetitions? : Value → Option Nat
  | int n => if 0 ≤ n ∧ n ≤ 200 then some n.toNat else none
  | _ => none

end Value

mutual

/-- The parser that a blueprint describes. -/
def Blueprint.parser : Blueprint → Parser Value
  | .integer => .map .int .integer
  | .float => .map .float .float
  | .anyChar => .map .char .anyChar
  | .literal expected => .map (fun _ ↦ .unit) (.literal expected)
  | .always value => .always value
  | .never => .never
  | .map f p => .map f.eval p.parser
  | .flatMap p next => .flatMap p.parser next.parser
  | .zip p q => .map (fun (a, b) ↦ .tuple [a, b]) (.zip p.parser q.parser)
  | .zip3 p q r =>
    .map (fun (a, b, c) ↦ .tuple [a, b, c]) (.zip3 p.parser q.parser r.parser)
  | .zip4 p q r s =>
    .map (fun (a, b, c, d) ↦ .tuple [a, b, c, d]) (.zip4 p.parser q.parser r.parser s.parser)
  | .zip5 p q r s t =>
    .map (fun (a, b, c, d, e) ↦ .tuple [a, b, c, d, e])
      (.zip5 p.parser q.parser r.parser s.parser t.parser)
  | .zip6 p q r s t u =>
    .map (fun (a, b, c, d, e, f) ↦ .tuple [a, b, c, d, e, f])
      (.zip6 p.parser q.parser r.parser s.parser t.parser u.parser)
  | .zip7 p q r s t u v =>
    .map (fun (a, b, c, d, e, f, g) ↦ .tuple [a, b, c, d, e, f, g])
      (.zip7 p.parser q.parser r.parser s.parser t.parser u.parser v.parser)
  | .zipWith f p q => .zipWith f.eval p.parser q.parser
  | .keepLeft p q => .keepLeft p.parser q.parser
  | .keepRight p q => .keepRight p.parser q.parser
  | .skipBoth p q => .map (fun _ ↦ .unit) (.skipBoth p.parser q.parser)
  | .apply p q => .apply (.map Value.apply p.parser) q.parser
  | .attempt p => .attempt p.parser
  | .sealed p => .sealed p.parser

/-- The parser that follows a value. -/
def Continuation.parser : Continuation → Value → Parser Value
  | .const next, _ => next.parser
  | .pure f, v => .always (f.eval v)
  | .combine f next, v => .map (f.eval v) next.parser
  | .same, v => v.textParser
  | .times next, v =>
    match v.repetitions? with
    | some n => .map .tuple (.sequence (List.replicate n next.parser))
    | none => .never
  | .switch arms, v => arms.parser v

/-- The parser of the first arm that fits a value. -/
def Arms.parser : Arms → Value → Parser Value
  | .otherwise p, _ => p.parser
  | .arm value p rest, v => if value.agrees v then p.parser else rest.parser v

end

namespace Blueprint

/-- A function of two arguments, ready to be applied to two outputs. -/
def lift2 (f : Binary) : Blueprint := always (.binary f)

/-- Sequences of two to seven parsers. -/
def zipAll? : List Blueprint → Option Blueprint
  | [p, q] => some (zip p q)
  | [p, q, r] => some (zip3 p q r)
  | [p, q, r, s] => some (zip4 p q r s)
  | [p, q, r, s, t] => some (zip5 p q r s t)
  | [p, q, r, s, t, u] => some (zip6 p q r s t u)
  | [p, q, r, s, t, u, v] => some (zip7 p q r s t u v)
  | _ => none

/-- The text that a blueprint of a fixed text expects. -/
def expected? : Blueprint → Option String
  | literal expected => some expected
  | _ => none

instance : HShiftRight Blueprint Blueprint Blueprint := ⟨fun p q ↦ (p.keepRight q).sealed⟩

instance : HShiftLeft Blueprint Blueprint Blueprint := ⟨fun p q ↦ (p.keepLeft q).sealed⟩

end Blueprint

end PrefixParsing
