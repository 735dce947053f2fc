import PrefixParsing.Parser

/-!
# Sessions

A session works on several cursors at once, each in a text of its own, with checkpoints kept in
named slots. The slots are shared: a checkpoint that was taken with one cursor can be restored to
another, also when that one stands in a different text.

A step is asked of one cursor, changes at most that cursor and one slot, and has a reply. The only
way in which a step fails is to name a cursor or a slot that does not exist.
-/

namespace PrefixParsing

universe u v

/-- What can be asked of a cursor. The parsers that can be run are given by the type `π`. -/
inductive Step (π : Type u) : Type u where
  /-- Step over `n` characters, or all that are left. -/
  | advance (n : Nat)
  /-- Step over exactly `n` characters. -/
  | advanceExactly (n : Nat)
  /-- Look at the next character. -/
  | peek
  /-- Read the next character. -/
  | value
  /-- Tell the whole text. -/
  | source
  /-- Tell the whole text and the offset. -/
  | position
  /-- Save the offset in a slot. -/
  | save (slot : String)
  /-- Go to the offset in a slot. -/
  | restore (slot : String)
  /-- Compare the offset with the one in a slot. -/
  | isAt (slot : String)
  /-- Become a copy of another cursor. -/
  | copy (other : Nat)
  /-- Compare with another cursor. -/
  | equals (other : Nat)
  /-- Run a parser. -/
  | run (p : π)

/-- The same step with another way of giving its parser. -/
def Step.map {π : Type u} {π' : Type v} (f : π → π') : Step π → Step π'
  | advance n => .advance n
  | advanceExactly n => .advanceExactly n
  | peek => .peek
  | value => .value
  | source => .source
  | position => .position
  | save slot => .save slot
  | restore slot => .restore slot
  | isAt slot => .isAt slot
  | copy other => .copy other
  | equals other => .equals other
  | run p => .run (f p)

/-- The reply to a step, where parsers that are run produce values of type `ρ`. -/
inductive Reply (ρ : Type) where
  | done
  | moved (result : Except Cursor.Error Unit)
  | peeked (next : Option Char)
  | read (result : Except Cursor.Error Char)
  | source (text : String)
  | position (text : String) (offset : Nat)
  | saved (offset : Nat)
  | compared (same : Bool)
  | output (result : Option ρ)

/-- Several cursors, and named checkpoints. -/
structure Session where
  cursors : List Cursor
  /-- The checkpoints, the latest first. A slot that was saved again holds its latest. -/
  slots : List (String × Checkpoint)

namespace Session

variable {ρ : Type}

/-- One cursor at the start of each text, and no checkpoints. -/
def start (sources : List String) : Session := ⟨sources.map Cursor.start, []⟩

/-- Replaces the cursor number `i`. -/
def put (s : Session) (i : Nat) (c : Cursor) : Session :=
  { s with cursors := s.cursors.set i c }

/-- Asks a step of the cursor number `i`. -/
def step (s : Session) (i : Nat) (what : Step (Parser ρ)) : Option (Reply ρ × Session) := do
  let c ← s.cursors[i]?
  match what with
  | .advance n => some (.done, s.put i (c.advance n))
  | .advanceExactly n =>
    match c.advanceExactly n with
    | .ok c' => some (.moved (.ok ()), s.put i c')
    | .error e => some (.moved (.error e), s)
  | .peek => some (.peeked c.peek?, s)
  | .value => some (.read c.value, s)
  | .source => some (.source c.source, s)
  | .position => some (.position c.position.1 c.position.2, s)
  | .save slot =>
    some (.saved c.checkpoint.offset, { s with slots := (slot, c.checkpoint) :: s.slots })
  | .restore slot => do
    let saved ← s.slots.lookup slot
    some (.done, s.put i (c.restore saved))
  | .isAt slot => do
    let saved ← s.slots.lookup slot
    some (.compared (saved = c.checkpoint), s)
  | .copy other => do
    let c' ← s.cursors[other]?
    some (.done, s.put i c')
  | .equals other => do
    let c' ← s.cursors[other]?
    some (.compared (c = c'), s)
  | .run p =>
    let outcome := p.run c
    some (.output outcome.output, s.put i outcome.cursor)

/-- Asks steps one after the other. With each reply comes the cursor that was asked, as it stands
after the step. -/
def run (s : Session) : List (Nat × Step (Parser ρ)) → Option (List (Reply ρ × Cursor))
  | [] => some []
  | (i, what) :: steps => do
    let (reply, s') ← s.step i what
    let c ← s'.cursors[i]?
    let replies ← s'.run steps
    some ((reply, c) :: replies)

end Session

end PrefixParsing
