/-!
# Byte positions in a text

Positions in a text are counted in UTF-8 bytes while the text itself is read character by
character. This file relates the two: the byte size of a list of characters, and the cut of a text
at a byte position. Everything is by recursion on the characters, so a position is never looked up
in an encoded byte array.

## Positions inside a character

A byte position may fall inside a character of several bytes, or beyond the end. Such a position
names no place in the text, so cutting there gives no two parts. `IsBoundary` is the predicate that
tells the other positions apart, and `cut_eq_some_iff` is all that later files need to know about
the recursion: a cut succeeds exactly at a boundary, with the two parts that meet there.
-/

namespace PrefixParsing.Text

/-! ## Byte size -/

/-- Number of bytes that the characters `cs` take in UTF-8. -/
def byteSize : List Char → Nat
  | [] => 0
  | c :: cs => c.utf8Size + byteSize cs

@[simp] theorem byteSize_nil : byteSize [] = 0 := rfl

@[simp] theorem byteSize_cons (c : Char) (cs : List Char) :
    byteSize (c :: cs) = c.utf8Size + byteSize cs := rfl

@[simp] theorem byteSize_append (cs ds : List Char) :
    byteSize (cs ++ ds) = byteSize cs + byteSize ds := by
  induction cs with
  | nil => simp
  | cons c cs ih => rw [List.cons_append, byteSize_cons, ih, byteSize_cons, Nat.add_assoc]

theorem byteSize_eq_zero {cs : List Char} : byteSize cs = 0 ↔ cs = [] := by
  cases cs with
  | nil => exact ⟨fun _ ↦ rfl, fun _ ↦ rfl⟩
  | cons c cs =>
    have hpos : 0 < byteSize (c :: cs) := by
      rw [byteSize_cons]
      exact Nat.add_pos_left c.utf8Size_pos _
    exact ⟨fun h ↦ absurd h (Nat.ne_of_gt hpos), fun h ↦ absurd h (List.cons_ne_nil c cs)⟩

/-- Characters of one byte each take as many bytes as there are of them. -/
theorem byteSize_of_utf8Size_eq_one {cs : List Char} (h : ∀ c ∈ cs, c.utf8Size = 1) :
    byteSize cs = cs.length := by
  induction cs with
  | nil => rfl
  | cons c cs ih =>
    obtain ⟨hc, hcs⟩ := List.forall_mem_cons.mp h
    rw [byteSize_cons, hc, ih hcs, List.length_cons, Nat.add_comm]

theorem utf8ByteSize_ofList (cs : List Char) : (String.ofList cs).utf8ByteSize = byteSize cs := by
  induction cs with
  | nil => rfl
  | cons c cs ih =>
    have hcons : String.ofList (c :: cs) = String.singleton c ++ String.ofList cs := by
      apply String.toList_injective
      simp
    rw [hcons, String.utf8ByteSize_append, String.utf8ByteSize_singleton, ih, byteSize_cons]

/-- The byte size of a string is that of its characters. -/
theorem utf8ByteSize_eq (s : String) : s.utf8ByteSize = byteSize s.toList := by
  rw [← utf8ByteSize_ofList, String.ofList_toList]

/-! ## Cutting at a byte position -/

/-- The two parts of `cs` that meet at byte position `n`, if that is a place in `cs`. -/
def cut : Nat → List Char → Option (List Char × List Char)
  | 0, cs => some ([], cs)
  | _ + 1, [] => none
  | n + 1, c :: cs =>
    if c.utf8Size ≤ n + 1 then
      (cut (n + 1 - c.utf8Size) cs).map fun parts ↦ (c :: parts.1, parts.2)
    else none

/-- `n` is the byte position of a place between two characters of `cs`, or at one of its ends. -/
def IsBoundary (cs : List Char) (n : Nat) : Prop := ∃ a b, cs = a ++ b ∧ byteSize a = n

@[simp] theorem cut_zero (cs : List Char) : cut 0 cs = some ([], cs) := by
  cases cs <;> rfl

theorem cut_cons_of_le {c : Char} {n : Nat} (h : c.utf8Size ≤ n) (cs : List Char) :
    cut n (c :: cs) = (cut (n - c.utf8Size) cs).map fun parts ↦ (c :: parts.1, parts.2) := by
  cases n with
  | zero => exact absurd h (Nat.not_le_of_lt c.utf8Size_pos)
  | succ n => rw [cut, if_pos h]

theorem cut_byteSize_append (a b : List Char) : cut (byteSize a) (a ++ b) = some (a, b) := by
  induction a with
  | nil => simp
  | cons c a ih =>
    rw [List.cons_append, byteSize_cons, cut_cons_of_le (Nat.le_add_right _ _),
      Nat.add_sub_cancel_left, ih, Option.map_some]

theorem eq_append_of_cut_eq_some {n : Nat} {cs a b : List Char} (h : cut n cs = some (a, b)) :
    cs = a ++ b ∧ byteSize a = n := by
  induction cs generalizing n a b with
  | nil =>
    cases n with
    | zero => simp_all
    | succ n => simp [cut] at h
  | cons c cs ih =>
    cases n with
    | zero => simp_all
    | succ n =>
      rw [cut] at h
      split at h
      case isTrue hle =>
        obtain ⟨⟨a', b'⟩, hcut, hparts⟩ := Option.map_eq_some_iff.mp h
        obtain ⟨rfl, hsize⟩ := ih hcut
        obtain ⟨rfl, rfl⟩ := Prod.mk.inj hparts
        refine ⟨rfl, ?_⟩
        rw [byteSize_cons, hsize]
        omega
      case isFalse => cases h

/-- A cut succeeds exactly at a boundary, with the two parts that meet there. -/
theorem cut_eq_some_iff {n : Nat} {cs a b : List Char} :
    cut n cs = some (a, b) ↔ cs = a ++ b ∧ byteSize a = n :=
  ⟨eq_append_of_cut_eq_some, fun ⟨hcs, hn⟩ ↦ hcs ▸ hn ▸ cut_byteSize_append a b⟩

theorem cut_eq_none_iff {n : Nat} {cs : List Char} : cut n cs = none ↔ ¬ IsBoundary cs n := by
  rw [Option.eq_none_iff_forall_ne_some]
  constructor
  · rintro h ⟨a, b, hcs, hn⟩
    exact h (a, b) (cut_eq_some_iff.mpr ⟨hcs, hn⟩)
  · rintro h ⟨a, b⟩ hcut
    exact h ⟨a, b, cut_eq_some_iff.mp hcut⟩

theorem isBoundary_zero (cs : List Char) : IsBoundary cs 0 := ⟨[], cs, rfl, rfl⟩

theorem isBoundary_byteSize (cs : List Char) : IsBoundary cs (byteSize cs) :=
  ⟨cs, [], by simp, rfl⟩

theorem IsBoundary.le_byteSize {cs : List Char} {n : Nat} (h : IsBoundary cs n) :
    n ≤ byteSize cs := by
  obtain ⟨a, b, rfl, rfl⟩ := h
  simp

/-! ## Stepping by characters -/

/-- Number of bytes that the first `n` characters of `cs` take, if there are that many. -/
def firstSize? : Nat → List Char → Option Nat
  | 0, _ => some 0
  | _ + 1, [] => none
  | n + 1, c :: cs => (firstSize? n cs).map (c.utf8Size + ·)

theorem firstSize?_eq (n : Nat) (cs : List Char) :
    firstSize? n cs = if n ≤ cs.length then some (byteSize (cs.take n)) else none := by
  induction n generalizing cs with
  | zero => simp [firstSize?]
  | succ n ih =>
    cases cs with
    | nil => simp [firstSize?]
    | cons c cs =>
      rw [firstSize?, ih, List.length_cons, List.take_succ_cons, byteSize_cons]
      split <;> simp_all

end PrefixParsing.Text
