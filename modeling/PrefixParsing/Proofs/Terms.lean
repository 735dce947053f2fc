import PrefixParsing.Description
import PrefixParsing.Proofs.QuotedTexts

/-!
# Terms and their texts

A description is the text of a small tree: a word, a quoted text or character, or a record of a name
and labelled parts, which are such trees again. This file shows that the tree can be read off the
text (`Term.text_append_inj`).

## Words

Names, labels and numbers are words. A word has no character that could end it, so it ends at the
first such character (`Word.append_inj`). That a word is of this kind is part of its type.

## What may be behind a term

A description inside another one has something behind it, and a word is only known to be over by
what is behind it. The induction is therefore on texts that go on, and not on whole texts. What goes
on is either nothing, the comma before the next part, or the end of the record (`Closes`). It is
never the brace that opens a record, which is how the name of a record differs from a word that
stands alone.
-/

namespace PrefixParsing

open Text

/-! ## Words -/

/-- The characters that neither divide the parts of a description nor open a quoted text. -/
def isWordChar (c : Char) : Bool := !(c == ' ' || c == ',' || c == ':' || c == '"' || c == '\x27')

/-- A word is not empty, and all its characters are those of words. -/
def isWord (text : String) : Bool := !text.toList.isEmpty && text.toList.all isWordChar

/-- What is behind a word does not go on with it. -/
def EndsWord (x : List Char) : Prop := ∀ c, x.head? = some c → isWordChar c = false

theorem endsWord_nil : EndsWord [] := fun _ hc ↦ nomatch hc

theorem endsWord_cons {c : Char} (hc : isWordChar c = false) (x : List Char) :
    EndsWord (c :: x) := fun _ hd ↦ Option.some.inj hd ▸ hc

/-- A name, a label or a number. -/
@[ext] structure Word where
  text : String
  isWord_text : isWord text = true

namespace Word

variable {v w : Word} {x y : List Char}

theorem toList_ne_nil (w : Word) : w.text.toList ≠ [] := by
  have hword := w.isWord_text
  simp only [isWord, Bool.and_eq_true, Bool.not_eq_true'] at hword
  exact List.isEmpty_eq_false_iff.mp hword.1

theorem isWordChar_of_mem (w : Word) : ∀ c ∈ w.text.toList, isWordChar c = true := by
  have hword := w.isWord_text
  rw [isWord, Bool.and_eq_true] at hword
  exact List.all_eq_true.mp hword.2

/-- A word ends where something else than a character of words is behind it. -/
theorem append_inj (hx : EndsWord x) (hy : EndsWord y)
    (h : v.text.toList ++ x = w.text.toList ++ y) : v = w ∧ x = y := by
  have hrun : IsLeadingRun isWordChar v.text.toList x := ⟨v.isWordChar_of_mem, hx⟩
  have hrun' : IsLeadingRun isWordChar w.text.toList y := ⟨w.isWordChar_of_mem, hy⟩
  obtain ⟨htext, hrest⟩ := hrun.unique hrun' h
  exact ⟨Word.ext (String.toList_injective htext), hrest⟩

/-- A text that starts with a word starts with a character of words. -/
theorem append_ne_cons (w : Word) {c : Char} (hc : isWordChar c = false) :
    w.text.toList ++ x ≠ c :: y := by
  intro h
  obtain ⟨first, others, hw⟩ := List.exists_cons_of_ne_nil w.toList_ne_nil
  rw [hw, List.cons_append, List.cons.injEq] at h
  have hfirst := w.isWordChar_of_mem first (hw ▸ List.mem_cons_self)
  rw [h.1, hc] at hfirst
  cases hfirst

end Word

/-! ## Terms -/

/-- What a description is the text of. -/
inductive Term where
  | word (w : Word)
  /-- Characters between double quotes or apostrophes. -/
  | quoted (quote : Char) (hquote : quote = '"' ∨ quote = '\x27') (cs : List Char)
  /-- A name with labelled parts, of which there is at least one. -/
  | record (name label : Word) (first : Term) (others : List (Word × Term))

mutual

/-- The description that a term stands for. -/
def Term.text : Term → String
  | .word w => w.text
  | .quoted quote _ cs => String.ofList (enclose quote cs)
  | .record name label first others =>
    PrefixParsing.record name.text ((label.text, first.text) :: Term.texts others)

/-- The labels of the parts, each with its description. -/
def Term.texts : List (Word × Term) → List (String × String)
  | [] => []
  | (label, part) :: others => (label.text, part.text) :: Term.texts others

end

/-- The name of a record, or the word that stands alone. -/
def Term.head : Term → String
  | .word w => w.text
  | .quoted _ _ _ => ""
  | .record name _ _ _ => name.text

/-! ## Texts of records -/

/-- What is behind the first part of a record: the other parts, and the end. -/
def behindPart : List (String × String) → List Char
  | [] => [' ', '\x7d']
  | (label, part) :: others =>
    ',' :: ' ' :: (label.toList ++ ':' :: ' ' :: (part.toList ++ behindPart others))

theorem toList_intercalate_parts (label part : String) (others : List (String × String)) :
    (", ".intercalate (((label, part) :: others).map fun p ↦ p.1 ++ ": " ++ p.2)).toList ++
        [' ', '\x7d'] =
      label.toList ++ ':' :: ' ' :: (part.toList ++ behindPart others) := by
  induction others generalizing label part with
  | nil => simp [behindPart]
  | cons other others ih =>
    have hothers := ih other.1 other.2
    rw [List.map_cons, List.map_cons, String.intercalate_cons_cons]
    rw [List.map_cons] at hothers
    simp only [String.toList_append, List.append_assoc, hothers, behindPart]
    simp

theorem toList_record (name label part : String) (others : List (String × String)) :
    (record name ((label, part) :: others)).toList =
      name.toList ++ ' ' :: '\x7b' :: ' ' ::
        (label.toList ++ ':' :: ' ' :: (part.toList ++ behindPart others)) := by
  have hparts := toList_intercalate_parts label part others
  rw [record, String.toList_append, String.toList_append, String.toList_append, List.append_assoc,
    List.append_assoc]
  show name.toList ++ (" \x7b ".toList ++ (_ ++ [' ', '\x7d'])) = _
  rw [hparts]
  rfl

/-! ## Reading a term off its text -/

/-- What may be behind a term: nothing, the next part of the record around it, or its end. -/
inductive Closes : List Char → Prop where
  | nil : Closes []
  | comma (rest : List Char) : Closes (',' :: rest)
  | brace (rest : List Char) : Closes (' ' :: '\x7d' :: rest)

variable {x y z : List Char}

theorem Closes.endsWord (hx : Closes x) : EndsWord x := by
  cases hx with
  | nil => exact endsWord_nil
  | comma rest | brace rest => exact endsWord_cons rfl _

/-- A record does not open behind a term. -/
theorem Closes.ne_open (hx : Closes x) : x ≠ ' ' :: '\x7b' :: z := by
  cases hx with
  | nil | comma rest => exact fun h ↦ nomatch h
  | brace rest => exact fun h ↦ nomatch (List.cons.inj (List.cons.inj h).2).1

theorem closes_behindPart_append (others : List (String × String)) (x : List Char) :
    Closes (behindPart others ++ x) := by
  rcases others with _ | ⟨⟨label, part⟩, others⟩
  · exact .brace x
  · exact .comma _

/-- A label ends at its colon. -/
theorem Word.append_colon_inj {v w : Word}
    (h : v.text.toList ++ ':' :: ' ' :: x = w.text.toList ++ ':' :: ' ' :: y) : v = w ∧ x = y := by
  obtain ⟨rfl, hrest⟩ := Word.append_inj (endsWord_cons rfl _) (endsWord_cons rfl _) h
  exact ⟨rfl, (List.cons.inj (List.cons.inj hrest).2).2⟩

/-- The name of a record ends at the blank before its brace. -/
theorem Word.append_open_inj {v w : Word}
    (h : v.text.toList ++ ' ' :: '\x7b' :: ' ' :: x = w.text.toList ++ ' ' :: '\x7b' :: ' ' :: y) :
    v = w ∧ x = y := by
  obtain ⟨rfl, hrest⟩ := Word.append_inj (endsWord_cons rfl _) (endsWord_cons rfl _) h
  exact ⟨rfl, (List.cons.inj (List.cons.inj (List.cons.inj hrest).2).2).2⟩

namespace Term

theorem toList_text_quoted {quote : Char} (hquote : quote = '"' ∨ quote = '\x27')
    (cs : List Char) : (quoted quote hquote cs).text.toList = enclose quote cs := by
  rw [text, String.toList_ofList]

theorem toList_text_record_append (name label : Word) (first : Term)
    (others : List (Word × Term)) (x : List Char) :
    (record name label first others).text.toList ++ x =
      name.text.toList ++ ' ' :: '\x7b' :: ' ' :: (label.text.toList ++ ':' :: ' ' ::
        (first.text.toList ++ (behindPart (texts others) ++ x))) := by
  rw [text, toList_record]
  simp only [List.append_assoc, List.cons_append]

/-- No quoted text starts with a word. -/
theorem append_ne_enclose_append {quote : Char} (hquote : quote = '"' ∨ quote = '\x27') (w : Word)
    (cs : List Char) : w.text.toList ++ x ≠ enclose quote cs ++ y := by
  refine w.append_ne_cons ?_
  rcases hquote with rfl | rfl <;> rfl

/-- A word that stands alone is no name of a record. -/
theorem append_ne_append_open (hx : Closes x) (v w : Word) :
    v.text.toList ++ x ≠ w.text.toList ++ ' ' :: '\x7b' :: y := by
  intro h
  exact hx.ne_open (Word.append_inj hx.endsWord (endsWord_cons rfl _) h).2

mutual

/-- **Terms can be read off their texts.** The induction goes along the first term. Its parts are
followed by the other parts or by the end of the record, so what is behind them closes again. -/
theorem text_append_inj (s t : Term) {x y : List Char} (hx : Closes x) (hy : Closes y)
    (h : s.text.toList ++ x = t.text.toList ++ y) : s = t ∧ x = y := by
  cases s with
  | word v =>
    cases t with
    | word w =>
      obtain ⟨rfl, hrest⟩ := Word.append_inj hx.endsWord hy.endsWord h
      exact ⟨rfl, hrest⟩
    | quoted quote hquote cs =>
      rw [toList_text_quoted] at h
      exact absurd h (append_ne_enclose_append hquote v cs)
    | record name label first others =>
      rw [toList_text_record_append] at h
      exact absurd h (append_ne_append_open hx v name)
  | quoted quote hquote cs =>
    rw [toList_text_quoted] at h
    cases t with
    | word w => exact absurd h.symm (append_ne_enclose_append hquote w cs)
    | quoted quote' hquote' ds =>
      rw [toList_text_quoted] at h
      obtain rfl : quote = quote' := (List.cons.inj h).1
      obtain ⟨rfl, hrest⟩ := enclose_append_inj hquote h
      exact ⟨rfl, hrest⟩
    | record name label first others =>
      rw [toList_text_record_append] at h
      exact absurd h.symm (append_ne_enclose_append hquote name cs)
  | record name label first others =>
    rw [toList_text_record_append] at h
    cases t with
    | word w => exact absurd h.symm (append_ne_append_open hy w name)
    | quoted quote hquote cs =>
      rw [toList_text_quoted] at h
      exact absurd h (append_ne_enclose_append hquote name cs)
    | record name' label' first' others' =>
      rw [toList_text_record_append] at h
      -- The texts are read from the front. Where the first part ends is not yet known in either
      -- text, so it is taken together with all that is behind it.
      obtain ⟨rfl, hparts⟩ := Word.append_open_inj h
      obtain ⟨rfl, hfirst⟩ := Word.append_colon_inj hparts
      obtain ⟨rfl, hbehind⟩ := text_append_inj first first' (closes_behindPart_append _ _)
        (closes_behindPart_append _ _) hfirst
      obtain ⟨rfl, hrest⟩ := behindPart_append_inj others others' hbehind
      exact ⟨rfl, hrest⟩

theorem behindPart_append_inj (ps qs : List (Word × Term)) {x y : List Char}
    (h : behindPart (texts ps) ++ x = behindPart (texts qs) ++ y) : ps = qs ∧ x = y := by
  rcases ps with _ | ⟨⟨label, part⟩, ps⟩
  · rcases qs with _ | ⟨⟨label', part'⟩, qs⟩
    · exact ⟨rfl, (List.cons.inj (List.cons.inj h).2).2⟩
    · exact absurd (List.cons.inj h).1 (by decide)
  · rcases qs with _ | ⟨⟨label', part'⟩, qs⟩
    · exact absurd (List.cons.inj h).1 (by decide)
    · simp only [texts, behindPart, List.cons_append, List.append_assoc] at h
      obtain ⟨rfl, hpart⟩ := Word.append_colon_inj (List.cons.inj (List.cons.inj h).2).2
      obtain ⟨rfl, hothers⟩ := text_append_inj part part' (closes_behindPart_append _ _)
        (closes_behindPart_append _ _) hpart
      obtain ⟨rfl, hrest⟩ := behindPart_append_inj ps qs hothers
      exact ⟨rfl, hrest⟩

end

theorem text_injective : Function.Injective text := by
  intro s t h
  refine (text_append_inj s t .nil .nil ?_).1
  rw [h]

end Term

end PrefixParsing
