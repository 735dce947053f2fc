import PrefixParsing.Scan

/-!
# Parsers

A parser is a description of how to recognise the start of a text, kept as a tree: primitives at
the leaves, combinators at the nodes. Keeping the tree, instead of only the function that it
denotes, is what lets statements speak about all parsers and go by induction over how they are
built. What a parser does is the scan `run`.

## The combinators

Two to seven parsers can be put in sequence with all their outputs kept; of two parsers, one output
or none can be kept; the output of one can be applied to the output of the next; and the output can
choose the parser that comes next (`flatMap`). None of these goes back when a later part fails. Only
`attempt` does.

## Parsing a whole text

`run` and `runOn` accept a text that only starts in the right way. `parse` accepts a text if nothing
is left over, and the reason for refusing one is reported as the last event.
-/

namespace PrefixParsing

/-- A parser that produces a value of type `α`. -/
inductive Parser : Type → Type 1 where
  /-- A run of digits, as the number that it spells. -/
  | integer : Parser Int
  /-- A run of digits with at most one point, as the number nearest to it. -/
  | float : Parser Binary64
  /-- One character, whatever it is. -/
  | anyChar : Parser Char
  /-- Exactly the text `expected`. -/
  | literal (expected : String) : Parser Unit
  /-- Nothing at all, successfully. -/
  | always {α : Type} (value : α) : Parser α
  /-- Nothing at all, without success. -/
  | never {α : Type} : Parser α
  /-- Applies a function to the output. -/
  | map {α β : Type} (f : α → β) (p : Parser α) : Parser β
  /-- Goes on with the parser that the output chooses. -/
  | flatMap {α β : Type} (p : Parser α) (next : α → Parser β) : Parser β
  /-- Two parsers in sequence, both outputs kept. -/
  | zip {α β : Type} (p : Parser α) (q : Parser β) : Parser (α × β)
  | zip3 {α β γ : Type} (p : Parser α) (q : Parser β) (r : Parser γ) : Parser (α × β × γ)
  | zip4 {α β γ δ : Type} (p : Parser α) (q : Parser β) (r : Parser γ) (s : Parser δ) :
    Parser (α × β × γ × δ)
  | zip5 {α β γ δ ε : Type} (p : Parser α) (q : Parser β) (r : Parser γ) (s : Parser δ)
    (t : Parser ε) : Parser (α × β × γ × δ × ε)
  | zip6 {α β γ δ ε ζ : Type} (p : Parser α) (q : Parser β) (r : Parser γ) (s : Parser δ)
    (t : Parser ε) (u : Parser ζ) : Parser (α × β × γ × δ × ε × ζ)
  | zip7 {α β γ δ ε ζ η : Type} (p : Parser α) (q : Parser β) (r : Parser γ) (s : Parser δ)
    (t : Parser ε) (u : Parser ζ) (v : Parser η) : Parser (α × β × γ × δ × ε × ζ × η)
  /-- Two parsers in sequence, the first output kept. -/
  | keepLeft {α β : Type} (p : Parser α) (q : Parser β) : Parser α
  /-- Two parsers in sequence, the second output kept. -/
  | keepRight {α β : Type} (p : Parser α) (q : Parser β) : Parser β
  /-- Two parsers in sequence, no output kept. -/
  | skipBoth {α β : Type} (p : Parser α) (q : Parser β) : Parser Unit
  /-- Two parsers in sequence, the first output applied to the second. -/
  | apply {α β : Type} (p : Parser (α → β)) (q : Parser α) : Parser β
  /-- Goes back to where it started when it fails. -/
  | attempt {α : Type} (p : Parser α) : Parser α
  /-- The same parser with its structure hidden. A reference to a parser, and a plain box around it,
  hide nothing: they are the parser itself and have no constructor. -/
  | sealed {α : Type} (p : Parser α) : Parser α

namespace Parser

variable {α β γ : Type}

/-! ## Running -/

/-- What a parser does to a cursor. -/
def run {α : Type} : Parser α → Scan α
  | integer => Scan.read Reading.integer
  | float => Scan.read Reading.float
  | anyChar => Scan.read Reading.anyChar
  | literal expected => Scan.read (Reading.literal expected)
  | always value => pure value
  | never => Scan.fail
  | map f p => do
    let a ← p.run
    pure (f a)
  | flatMap p next => do
    let a ← p.run
    (next a).run
  | zip p q => do
    let a ← p.run
    let b ← q.run
    pure (a, b)
  | zip3 p q r => do
    let a ← p.run
    let b ← q.run
    let c ← r.run
    pure (a, b, c)
  | zip4 p q r s => do
    let a ← p.run
    let b ← q.run
    let c ← r.run
    let d ← s.run
    pure (a, b, c, d)
  | zip5 p q r s t => do
    let a ← p.run
    let b ← q.run
    let c ← r.run
    let d ← s.run
    let e ← t.run
    pure (a, b, c, d, e)
  | zip6 p q r s t u => do
    let a ← p.run
    let b ← q.run
    let c ← r.run
    let d ← s.run
    let e ← t.run
    let f ← u.run
    pure (a, b, c, d, e, f)
  | zip7 p q r s t u v => do
    let a ← p.run
    let b ← q.run
    let c ← r.run
    let d ← s.run
    let e ← t.run
    let f ← u.run
    let g ← v.run
    pure (a, b, c, d, e, f, g)
  | keepLeft p q => do
    let a ← p.run
    let _ ← q.run
    pure a
  | keepRight p q => do
    let _ ← p.run
    q.run
  | skipBoth p q => do
    let _ ← p.run
    let _ ← q.run
    pure ()
  | apply p q => do
    let f ← p.run
    let a ← q.run
    pure (f a)
  | attempt p => p.run.attempt
  | sealed p => p.run

/-- Runs a parser at the start of a text, and gives the text that is left. -/
def runOn (p : Parser α) (text : String) : Option α × String :=
  let outcome := p.run (Cursor.start text)
  (outcome.output, outcome.cursor.remaining)

/-- The result of parsing a whole text. -/
structure Result (α : Type) where
  /-- The value of the text, if it was accepted. -/
  output : Option α
  /-- What was reported, in order. -/
  events : List Event

/-- Parses a whole text, and reports why it is refused if it is. -/
def parseReporting (p : Parser α) (text : String) : Result α :=
  let outcome := p.run (Cursor.start text)
  match outcome.output with
  | none => ⟨none, outcome.events ++ [.noMatch text.utf8ByteSize]⟩
  | some a =>
    if outcome.cursor.isEmpty then ⟨some a, outcome.events⟩
    else
      let left := outcome.cursor.remaining.utf8ByteSize
      ⟨none, outcome.events ++ [.trailingInput outcome.cursor.offset left]⟩

/-- Parses a whole text. -/
def parse (p : Parser α) (text : String) : Option α := (p.parseReporting text).output

/-! ## Derived parsers -/

/-- Two parsers in sequence, their outputs combined by `f`. -/
def zipWith (f : α → β → γ) (p : Parser α) (q : Parser β) : Parser γ :=
  map (fun ab ↦ f ab.1 ab.2) (zip p q)

/-- A function of two arguments, ready to be applied to the outputs of two parsers. -/
def lift2 (f : α → β → γ) : Parser (α → β → γ) := always f

/-- All parsers of a list in sequence, all outputs kept. -/
def sequence (ps : List (Parser α)) : Parser (List α) :=
  ps.foldl (fun outputs p ↦ zipWith (fun as a ↦ as ++ [a]) outputs p) (always [])

/-! ## Operators

The standard operators `<$>`, `<*>`, `<*`, `*>` and `do` build parsers. The shift operators keep the
side that they point to and hide the structure of the result, so that a chain of them is again a
sealed parser. -/

instance : Monad Parser where
  map := map
  pure := always
  bind := flatMap
  seq p q := apply p (q ())
  seqLeft p q := keepLeft p (q ())
  seqRight p q := keepRight p (q ())

instance : HShiftRight (Parser α) (Parser β) (Parser β) := ⟨fun p q ↦ (p.keepRight q).sealed⟩

instance : HShiftLeft (Parser α) (Parser β) (Parser α) := ⟨fun p q ↦ (p.keepLeft q).sealed⟩

end Parser

end PrefixParsing
