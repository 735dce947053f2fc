import PrefixParsing.Proofs.Locality

/-!
# Every bump is exact

A cursor is moved past a lexeme by `Cursor.bump`, which is told a number of bytes and believes it.
The number should lead from the place of the cursor to another place between two characters of the
text, and `bump` cuts it at the end of the text in case it does not. This file shows that the cut is
never needed: whatever parser is run, each call of `bump` comes with a number of bytes that ends at
a boundary of the text ahead.

## Keeping a record

An outcome does not tell which bumps have led to it, and those of an attempt that failed have left
no trace. So the calls are kept in a record. `Parser.recorded` runs a parser in a monad that does
what scans do and writes down each bump with the cursor that it was asked of;
`Parser.toScan_recorded` says that apart from the record nothing has changed.

## What carries the induction

A bump is exact if it is asked of a cursor in bounds and takes off a start of the text ahead. A
reading takes off such a start, and it leaves the cursor in bounds; so do all recordings that are
made of readings (`Recording.Exact`).
-/

namespace PrefixParsing

open Text

/-! ## Sums of sizes -/

/-- The sum of two sizes is the same in 64 bits. -/
def AddsInWord (a b : Nat) : Prop := (UInt64.ofNat a + UInt64.ofNat b).toNat = a + b

theorem addsInWord_of_lt {a b : Nat} (h : a + b < UInt64.size) : AddsInWord a b := by
  rw [AddsInWord, UInt64.toNat_add, UInt64.toNat_ofNat', UInt64.toNat_ofNat', ← Nat.add_mod]
  exact Nat.mod_eq_of_lt h

/-! ## Bumps and their records -/

/-- A call of `Cursor.bump`. -/
structure Bump where
  /-- The cursor that is moved. -/
  cursor : Cursor
  /-- The number of bytes to move by. -/
  size : Nat

/-- A bump that ends between two characters of the text ahead. -/
structure Bump.IsExact (b : Bump) : Prop where
  /-- The text ahead can be cut at the number of bytes. -/
  isBoundary : IsBoundary b.cursor.remaining.toList b.size
  /-- The end of the text is not overrun. -/
  le_size : b.cursor.offset + b.size ≤ b.cursor.size

theorem Bump.isExact_of_rest_eq {c : Cursor} (hc : c.InBounds) {a rest : List Char}
    (h : c.rest = a ++ rest) : (⟨c, byteSize a⟩ : Bump).IsExact where
  isBoundary := by
    rw [Cursor.remaining, String.toList_ofList]
    exact ⟨a, rest, h, rfl⟩
  le_size := hc.past h

/-- The bound of an exact bump makes no difference. -/
theorem Bump.IsExact.bump_eq {b : Bump} (h : b.IsExact) :
    b.cursor.bump b.size = ⟨b.cursor.source, b.cursor.offset + b.size⟩ := by
  rw [Cursor.bump, Nat.min_eq_left h.le_size]

/-- An outcome with the bumps that were made on the way, in order. -/
structure Recorded (α : Type) extends Outcome α where
  bumps : List Bump

/-- The bumps are exact and made in the text of `c`, in which the cursor has stayed. -/
structure Recorded.ExactFrom {α : Type} (o : Recorded α) (c : Cursor) : Prop where
  source_eq : o.cursor.source = c.source
  inBounds : o.cursor.InBounds
  isExact : ∀ b ∈ o.bumps, b.cursor.source = c.source ∧ b.IsExact

/-- A scan that keeps a record of its bumps. -/
def Recording (α : Type) : Type := Cursor → Recorded α

namespace Recording

variable {α β : Type}

/-- The scan without the record. -/
def toScan (s : Recording α) : Scan α := fun c ↦ (s c).toOutcome

protected def pure (a : α) : Recording α := fun c ↦ ⟨⟨some a, c, []⟩, []⟩

def fail : Recording α := fun c ↦ ⟨⟨none, c, []⟩, []⟩

protected def bind (s : Recording α) (k : α → Recording β) : Recording β := fun c ↦
  match s c with
  | ⟨⟨some a, c', events⟩, bumps⟩ =>
    let next := k a c'
    ⟨⟨next.output, next.cursor, events ++ next.events⟩, bumps ++ next.bumps⟩
  | ⟨⟨none, c', events⟩, bumps⟩ => ⟨⟨none, c', events⟩, bumps⟩

instance : Monad Recording where
  pure := Recording.pure
  bind := Recording.bind

/-- Moves by a bump and writes it down. -/
def bump (k : Nat) : Recording Unit := fun c ↦ ⟨⟨some (), c.bump k, []⟩, [⟨c, k⟩]⟩

/-- Bumps past the lexeme that `look` finds ahead, or stays. -/
def read (look : List Char → Reading α) : Recording α := fun c ↦
  match look c.rest with
  | .found lexeme a => (bump (byteSize lexeme) >>= fun _ ↦ pure a) c
  | .missing report => ⟨⟨none, c, report.toList⟩, []⟩

/-- Going back does not undo the record. -/
def attempt (s : Recording α) : Recording α := fun c ↦ ⟨s.toScan.attempt c, (s c).bumps⟩

/-! ### Without the record -/

@[simp] theorem toScan_pure (a : α) : (pure a : Recording α).toScan = pure a := rfl

@[simp] theorem toScan_fail : (fail : Recording α).toScan = Scan.fail := rfl

@[simp] theorem toScan_attempt (s : Recording α) : s.attempt.toScan = s.toScan.attempt := rfl

@[simp] theorem toScan_read (look : List Char → Reading α) :
    (read look).toScan = Scan.read look := by
  ext c
  rw [toScan, read, Scan.read]
  cases look c.rest <;> rfl

@[simp] theorem toScan_bind (s : Recording α) (k : α → Recording β) :
    (s >>= k).toScan = s.toScan >>= fun a ↦ (k a).toScan := by
  ext c
  show (Recording.bind s k c).toOutcome = Scan.bind s.toScan _ c
  rw [Recording.bind, Scan.bind, toScan]
  rcases s c with ⟨⟨_ | a, c', events⟩, bumps⟩ <;> rfl

@[simp] theorem toScan_map (f : α → β) (s : Recording α) : (f <$> s).toScan = f <$> s.toScan :=
  toScan_bind s fun a ↦ pure (f a)

@[simp] theorem toScan_seq (s : Recording (α → β)) (t : Recording α) :
    (s <*> t).toScan = s.toScan <*> t.toScan := by
  show (s >>= fun f ↦ f <$> t).toScan = s.toScan >>= fun f ↦ f <$> t.toScan
  simp only [toScan_bind, toScan_map]

/-! ### Exact recordings -/

/-- From a cursor in bounds, all bumps are exact and made in its text, and it stays in bounds. -/
def Exact (s : Recording α) : Prop := ∀ c : Cursor, c.InBounds → (s c).ExactFrom c

theorem exact_pure (a : α) : (pure a : Recording α).Exact := fun _ hc ↦
  ⟨rfl, hc, fun _ hb ↦ absurd hb List.not_mem_nil⟩

theorem exact_fail : (fail : Recording α).Exact := fun _ hc ↦
  ⟨rfl, hc, fun _ hb ↦ absurd hb List.not_mem_nil⟩

/-- A reading takes off a start of the text ahead, so the bump past it is exact. -/
theorem exact_read {look : List Char → Reading α} (hlook : Scan.ReadsStart look) :
    (read look).Exact := by
  intro c hc
  rw [read]
  cases h : look c.rest with
  | found lexeme a =>
    obtain ⟨rest, hrest⟩ := hlook h
    refine ⟨rfl, Nat.min_le_right _ _, List.forall_mem_singleton.mpr ⟨rfl, ?_⟩⟩
    exact Bump.isExact_of_rest_eq hc hrest
  | missing report => exact ⟨rfl, hc, fun _ hb ↦ absurd hb List.not_mem_nil⟩

theorem Exact.bind {s : Recording α} {k : α → Recording β} (hs : s.Exact)
    (hk : ∀ a, (k a).Exact) : (s >>= k).Exact := by
  intro c hc
  have hfirst := hs c hc
  show (Recording.bind s k c).ExactFrom c
  rw [Recording.bind]
  rcases h : s c with ⟨⟨_ | a, c', events⟩, bumps⟩
  · rw [h] at hfirst
    exact ⟨hfirst.source_eq, hfirst.inBounds, hfirst.isExact⟩
  · rw [h] at hfirst
    have hnext := hk a c' hfirst.inBounds
    have hsource : c'.source = c.source := hfirst.source_eq
    refine ⟨hnext.source_eq.trans hsource, hnext.inBounds, fun b hb ↦ ?_⟩
    rcases List.mem_append.mp hb with hb | hb
    · exact hfirst.isExact b hb
    · obtain ⟨hb, hexact⟩ := hnext.isExact b hb
      exact ⟨hb.trans hsource, hexact⟩

theorem Exact.map (f : α → β) {s : Recording α} (hs : s.Exact) : (f <$> s).Exact :=
  hs.bind fun a ↦ exact_pure (f a)

theorem Exact.seq {s : Recording (α → β)} {t : Recording α} (hs : s.Exact) (ht : t.Exact) :
    (s <*> t).Exact := hs.bind fun f ↦ ht.map f

theorem Exact.attempt {s : Recording α} (hs : s.Exact) : s.attempt.Exact := by
  intro c hc
  have hfirst := hs c hc
  have hcursor : (s.toScan.attempt c).cursor.source = c.source ∧
      (s.toScan.attempt c).cursor.InBounds := by
    cases h : (s.toScan c).output with
    | none =>
      rw [Scan.attempt_apply_of_none h]
      exact ⟨hfirst.source_eq, Nat.min_le_right _ _⟩
    | some a =>
      rw [Scan.attempt_apply_of_some h]
      exact ⟨hfirst.source_eq, hfirst.inBounds⟩
  -- A failed attempt still has its bumps in the record; only the cursor is put back.
  exact ⟨hcursor.1, hcursor.2, hfirst.isExact⟩

end Recording

/-! ## Steps over characters -/

section

variable {c : Cursor}

/-- What `advance` adds leads to a place in the text, also where it stops at the end. -/
theorem Cursor.InBounds.offset_add_firstSize_le (hc : c.InBounds) (n : Nat) :
    c.offset + (firstSize? n c.rest).getD (byteSize c.rest) ≤ c.size := by
  have hpast : (c.past (c.rest.take n)).InBounds := hc.past (List.take_append_drop n c.rest).symm
  have hadvance : c.advance n = c.past (c.rest.take n) := c.advance_eq n
  rw [← hadvance] at hpast
  exact hpast

theorem Cursor.InBounds.offset_add_le_of_firstSize_eq (hc : c.InBounds) {n k : Nat}
    (h : firstSize? n c.rest = some k) : c.offset + k ≤ c.size := by
  have hle := hc.offset_add_firstSize_le n
  rwa [h, Option.getD_some] at hle

theorem Cursor.advanceExactly_of_firstSize_eq {n k : Nat} (h : firstSize? n c.rest = some k) :
    c.advanceExactly n = .ok ⟨c.source, c.offset + k⟩ := by
  rw [advanceExactly, h]

end

/-! ## Recording a parser -/

namespace Parser

open Recording

variable {α : Type}

/-- Runs a parser with a record of its bumps. -/
def recorded {α : Type} : Parser α → Recording α
  | integer => read Reading.integer
  | float => read Reading.float
  | anyChar => read Reading.anyChar
  | literal expected => read (Reading.literal expected)
  | always value => pure value
  | never => fail
  | map f p => f <$> p.recorded
  | flatMap p next => p.recorded >>= fun a ↦ (next a).recorded
  | zip p q => (·, ·) <$> p.recorded <*> q.recorded
  | zip3 p q r => (·, ·, ·) <$> p.recorded <*> q.recorded <*> r.recorded
  | zip4 p q r s => (·, ·, ·, ·) <$> p.recorded <*> q.recorded <*> r.recorded <*> s.recorded
  | zip5 p q r s t =>
    (·, ·, ·, ·, ·) <$> p.recorded <*> q.recorded <*> r.recorded <*> s.recorded <*> t.recorded
  | zip6 p q r s t u =>
    (·, ·, ·, ·, ·, ·) <$> p.recorded <*> q.recorded <*> r.recorded <*> s.recorded <*>
      t.recorded <*> u.recorded
  | zip7 p q r s t u v =>
    (·, ·, ·, ·, ·, ·, ·) <$> p.recorded <*> q.recorded <*> r.recorded <*> s.recorded <*>
      t.recorded <*> u.recorded <*> v.recorded
  | keepLeft p q => (fun a _ ↦ a) <$> p.recorded <*> q.recorded
  | keepRight p q => (fun _ b ↦ b) <$> p.recorded <*> q.recorded
  | skipBoth p q => (fun _ _ ↦ ()) <$> p.recorded <*> q.recorded
  | apply p q => p.recorded <*> q.recorded
  | attempt p => p.recorded.attempt
  | sealed p => p.recorded

/-- Without the record, a recorded run is a run. -/
theorem toScan_recorded (p : Parser α) : p.recorded.toScan = p.run := by
  induction p with
  | integer | float | anyChar | literal expected => exact toScan_read _
  | always value => exact toScan_pure value
  | never => exact toScan_fail
  | sealed p ih => exact ih
  | attempt p ih => rw [recorded, toScan_attempt, ih, run]
  | map f p ih => rw [recorded, toScan_map, ih, run, map_eq_pure_bind]
  | flatMap p next ihp ihnext => simp only [recorded, toScan_bind, ihp, ihnext, run]
  | zip | zip3 | zip4 | zip5 | zip6 | zip7 | keepLeft | keepRight | skipBoth | apply =>
    simp only [recorded, toScan_map, toScan_seq, run, *]
    simp [seq_eq_bind_map]

theorem exact_recorded (p : Parser α) : p.recorded.Exact := by
  induction p with
  | integer => exact exact_read Reading.eq_append_of_integer
  | float => exact exact_read Reading.eq_append_of_float
  | anyChar => exact exact_read Reading.eq_append_of_anyChar
  | literal expected => exact exact_read Reading.eq_append_of_literal
  | always value => exact exact_pure value
  | never => exact exact_fail
  | sealed p ih => exact ih
  | attempt p ih => exact ih.attempt
  | map f p ih => exact ih.map f
  | flatMap p next ihp ihnext => exact ihp.bind ihnext
  | zip p q ihp ihq | keepLeft p q ihp ihq | keepRight p q ihp ihq | skipBoth p q ihp ihq =>
    exact (ihp.map _).seq ihq
  | apply p q ihp ihq => exact ihp.seq ihq
  | zip3 p q r ihp ihq ihr => exact ((ihp.map _).seq ihq).seq ihr
  | zip4 p q r s ihp ihq ihr ihs => exact (((ihp.map _).seq ihq).seq ihr).seq ihs
  | zip5 p q r s t ihp ihq ihr ihs iht => exact ((((ihp.map _).seq ihq).seq ihr).seq ihs).seq iht
  | zip6 p q r s t u ihp ihq ihr ihs iht ihu =>
    exact (((((ihp.map _).seq ihq).seq ihr).seq ihs).seq iht).seq ihu
  | zip7 p q r s t u v ihp ihq ihr ihs iht ihu ihv =>
    exact ((((((ihp.map _).seq ihq).seq ihr).seq ihs).seq iht).seq ihu).seq ihv

/-- **No bump is cut short.** In a text of less than `2 ^ 63` bytes, each bump that a run makes ends
at a boundary of the text ahead and within the text. So the bound of `bump` never makes a
difference, and the sum is one of 64 bits. The same holds of the sums in `advance` and
`advanceExactly`. -/
theorem bumps_exact (p : Parser α) {c : Cursor} (hc : c.InBounds)
    (hsize : c.size < 0x8000000000000000) :
    (p.recorded c).toOutcome = p.run c ∧
    (∀ b ∈ (p.recorded c).bumps, b.cursor.source = c.source ∧
      IsBoundary b.cursor.remaining.toList b.size ∧ b.cursor.offset + b.size ≤ c.size ∧
      AddsInWord b.cursor.offset b.size ∧
      b.cursor.bump b.size = ⟨c.source, b.cursor.offset + b.size⟩) ∧
    (∀ n, let k := (firstSize? n c.rest).getD (byteSize c.rest)
      c.advance n = ⟨c.source, c.offset + k⟩ ∧ c.offset + k ≤ c.size ∧ AddsInWord c.offset k) ∧
    ∀ n k, firstSize? n c.rest = some k →
      c.advanceExactly n = .ok ⟨c.source, c.offset + k⟩ ∧ c.offset + k ≤ c.size ∧
        AddsInWord c.offset k := by
  have hadds {a b : Nat} (h : a + b ≤ c.size) : AddsInWord a b :=
    addsInWord_of_lt (Nat.lt_of_le_of_lt h (Nat.lt_trans hsize (by decide)))
  refine ⟨congrFun p.toScan_recorded c, fun b hb ↦ ?_, fun n ↦ ?_, fun n k hk ↦ ?_⟩
  · obtain ⟨hsource, hexact⟩ := (p.exact_recorded c hc).isExact b hb
    have hle : b.cursor.offset + b.size ≤ c.size := by
      rw [Cursor.size, ← hsource]
      exact hexact.le_size
    exact ⟨hsource, hexact.isBoundary, hle, hadds hle, hsource ▸ hexact.bump_eq⟩
  · have hle := hc.offset_add_firstSize_le n
    exact ⟨rfl, hle, hadds hle⟩
  · have hle := hc.offset_add_le_of_firstSize_eq hk
    exact ⟨Cursor.advanceExactly_of_firstSize_eq hk, hle, hadds hle⟩

/-- A number that an attempt goes back over is in the record, and so is the empty text that is found
inside a character. -/
theorem bumps_exact_attempt :
    (⟨"é12;x", 2⟩ : Cursor).InBounds ∧ (⟨"é12;x", 2⟩ : Cursor).size < 0x8000000000000000 ∧
      ((integer.zip (literal ",")).attempt.recorded ⟨"é12;x", 2⟩).bumps =
        [⟨⟨"é12;x", 2⟩, 2⟩] ∧
      IsBoundary (⟨"é12;x", 2⟩ : Cursor).remaining.toList 2 ∧
      (⟨"é12;x", 2⟩ : Cursor).bump 2 = ⟨"é12;x", 4⟩ ∧
      (⟨"é12;x", 1⟩ : Cursor).InBounds ∧
      (((literal "").zip anyChar).recorded ⟨"é12;x", 1⟩).bumps = [⟨⟨"é12;x", 1⟩, 0⟩] ∧
      IsBoundary (⟨"é12;x", 1⟩ : Cursor).remaining.toList 0 := by
  have hc : (⟨"é12;x", 2⟩ : Cursor).InBounds := by
    show 2 ≤ "é12;x".utf8ByteSize
    decide +kernel
  have hinside : (⟨"é12;x", 1⟩ : Cursor).InBounds := Nat.le_trans (by decide) hc
  have hsize : (⟨"é12;x", 2⟩ : Cursor).size < 0x8000000000000000 := by decide +kernel
  have hnumber : ((integer.zip (literal ",")).attempt.recorded ⟨"é12;x", 2⟩).bumps =
      [⟨⟨"é12;x", 2⟩, 2⟩] := rfl
  have hempty : (((literal "").zip anyChar).recorded ⟨"é12;x", 1⟩).bumps =
      [⟨⟨"é12;x", 1⟩, 0⟩] := rfl
  obtain ⟨-, hbumps, -⟩ := bumps_exact (integer.zip (literal ",")).attempt hc hsize
  obtain ⟨-, hbumps', -⟩ := bumps_exact ((literal "").zip anyChar) hinside hsize
  rw [hnumber, List.forall_mem_singleton] at hbumps
  rw [hempty, List.forall_mem_singleton] at hbumps'
  exact ⟨hc, hsize, hnumber, hbumps.2.1, hbumps.2.2.2.2, hinside, hempty, hbumps'.2.1⟩

end Parser

end PrefixParsing
