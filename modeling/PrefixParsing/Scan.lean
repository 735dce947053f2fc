import PrefixParsing.Cursor
import PrefixParsing.Reading

/-!
# Scans

A scan is what a parser does to a cursor: it may produce an output, it leaves the cursor somewhere,
and it may report events. Scans compose in sequence, where the first one without an output ends the
sequence, and that composition is a lawful monad. The equality of scans is the equality of all three
parts, so a law about scans also says where the cursor stands after a failure.

## Failure does not rewind

A sequence that fails leaves the cursor where the failing scan left it, after all that the earlier
ones consumed. Going back is a separate operation, `attempt`, which returns the cursor to where it
started when there is no output, and does not take back events.

`read` is the only scan that moves the cursor forward, and it moves it past the lexeme it found.
-/

namespace PrefixParsing

open Text

/-- What is left after a scan. -/
structure Outcome (α : Type) where
  /-- The value produced, if the scan succeeded. -/
  output : Option α
  /-- Where the cursor stands afterwards, after a failure too. -/
  cursor : Cursor
  /-- What was reported, in order. -/
  events : List Event

/-- A computation that walks a cursor. -/
def Scan (α : Type) : Type := Cursor → Outcome α

namespace Scan

variable {α β γ : Type}

@[ext] theorem ext {p q : Scan α} (h : ∀ c, p c = q c) : p = q := funext h

/-- Produces a value and does nothing else. -/
protected def pure (a : α) : Scan α := fun c ↦ ⟨some a, c, []⟩

/-- Fails and does nothing else. -/
def fail : Scan α := fun c ↦ ⟨none, c, []⟩

/-- Runs `p` and, if it succeeds, goes on from its value where it left the cursor. -/
protected def bind (p : Scan α) (k : α → Scan β) : Scan β := fun c ↦
  match p c with
  | ⟨some a, c', events⟩ =>
    let next := k a c'
    ⟨next.output, next.cursor, events ++ next.events⟩
  | ⟨none, c', events⟩ => ⟨none, c', events⟩

/-- Runs `p` and, if it fails, returns the cursor to where it was. -/
def attempt (p : Scan α) : Scan α := fun c ↦
  let outcome := p c
  match outcome.output with
  | some _ => outcome
  | none => { outcome with cursor := outcome.cursor.restore c.checkpoint }

/-- Moves past the lexeme that `look` finds ahead, or stays. -/
def read (look : List Char → Reading α) : Scan α := fun c ↦
  match look c.rest with
  | .found lexeme a => ⟨some a, c.bump (byteSize lexeme), []⟩
  | .missing report => ⟨none, c, report.toList⟩

instance : Monad Scan where
  pure := Scan.pure
  bind := Scan.bind

/-! ## What the operations do -/

theorem attempt_apply_of_some {p : Scan α} {c : Cursor} {a : α} (h : (p c).output = some a) :
    p.attempt c = p c := by
  simp only [attempt, h]

theorem attempt_apply_of_none {p : Scan α} {c : Cursor} (h : (p c).output = none) :
    p.attempt c = { p c with cursor := (p c).cursor.restore c.checkpoint } := by
  simp only [attempt, h]

theorem read_apply_of_found {look : List Char → Reading α} {c : Cursor} {lexeme : List Char}
    {a : α} (h : look c.rest = .found lexeme a) :
    read look c = ⟨some a, c.bump (byteSize lexeme), []⟩ := by
  rw [read, h]

theorem read_apply_of_missing {look : List Char → Reading α} {c : Cursor} {report : Option Event}
    (h : look c.rest = .missing report) : read look c = ⟨none, c, report.toList⟩ := by
  rw [read, h]

/-! ## The monad laws -/

@[simp] theorem pure_apply (a : α) (c : Cursor) : (pure a : Scan α) c = ⟨some a, c, []⟩ := rfl

theorem bind_apply_of_some {p : Scan α} {c c' : Cursor} {a : α} {events : List Event}
    (h : p c = ⟨some a, c', events⟩) (k : α → Scan β) :
    (p >>= k) c = ⟨(k a c').output, (k a c').cursor, events ++ (k a c').events⟩ := by
  show Scan.bind p k c = _
  rw [Scan.bind, h]

theorem bind_apply_of_none {p : Scan α} {c c' : Cursor} {events : List Event}
    (h : p c = ⟨none, c', events⟩) (k : α → Scan β) : (p >>= k) c = ⟨none, c', events⟩ := by
  show Scan.bind p k c = _
  rw [Scan.bind, h]

theorem bind_pure_eq (p : Scan α) : (p >>= fun a ↦ (pure a : Scan α)) = p := by
  ext c
  rcases h : p c with ⟨_ | a, c', events⟩
  · exact bind_apply_of_none h _
  · rw [bind_apply_of_some h]
    simp

theorem bind_bind_eq (p : Scan α) (k : α → Scan β) (l : β → Scan γ) :
    ((p >>= k) >>= l) = p >>= fun a ↦ k a >>= l := by
  ext c
  rcases h : p c with ⟨_ | a, c', events⟩
  · rw [bind_apply_of_none h, bind_apply_of_none (bind_apply_of_none h k)]
  · rw [bind_apply_of_some h]
    rcases hk : k a c' with ⟨_ | b, c'', events'⟩
    · have hbind := bind_apply_of_some h k
      rw [hk] at hbind
      rw [bind_apply_of_none hbind, bind_apply_of_none hk]
    · have hbind := bind_apply_of_some h k
      rw [hk] at hbind
      rw [bind_apply_of_some hbind, bind_apply_of_some hk]
      simp

/-- Sequencing scans obeys the monad laws, cursors and events included. -/
instance : LawfulMonad Scan := LawfulMonad.mk' Scan (fun p ↦ bind_pure_eq p)
  (fun _ _ ↦ Scan.ext fun _ ↦ rfl) bind_bind_eq

/-- A function of the output leaves the rest of the outcome as it is. -/
theorem map_apply (f : α → β) (p : Scan α) (c : Cursor) :
    (f <$> p) c = ⟨(p c).output.map f, (p c).cursor, (p c).events⟩ := by
  rw [← bind_pure_comp]
  rcases h : p c with ⟨_ | a, c', events⟩
  · exact bind_apply_of_none h _
  · rw [bind_apply_of_some h, pure_apply, List.append_nil]
    rfl

end Scan

end PrefixParsing
