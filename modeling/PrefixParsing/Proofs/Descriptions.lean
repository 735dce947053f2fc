import PrefixParsing.Proofs.Terms

/-!
# A description determines what it describes

Cursors, and the parsers that hold no functions and hide nothing, can be told from their
descriptions. Literals do not stand in the way: a fixed text may well look like the description of
another parser, but it stands between quotes.

The proof goes by the terms. A cursor and each such parser has a term of which its description is
the text, and terms can be read off their texts. What is left is that different parsers have
different terms: the names tell the kinds of parsers apart, and the parts tell the parsers of a kind
apart.
-/

namespace PrefixParsing

open Text

/-! ## Numbers -/

theorem mem_intText {n : Int} {c : Char} (hc : c ∈ (intText n).toList) :
    c = '-' ∨ c.isDigit = true := by
  have hdigit {d : Char} (hd : d ∈ digitsOf n.natAbs) : d.isDigit = true :=
    Nat.isDigit_of_mem_toDigits (by decide) (by decide) hd
  rw [intText, String.toList_ofList] at hc
  split at hc
  case isTrue => exact (List.mem_cons.mp hc).imp_right hdigit
  case isFalse => exact .inr (hdigit hc)

theorem isWordChar_of_isDigit {c : Char} (hc : c.isDigit = true) : isWordChar c = true := by
  rw [isWordChar, Bool.not_eq_true', ← Bool.not_eq_true]
  simp only [Bool.or_eq_true, beq_iff_eq]
  rintro ((((rfl | rfl) | rfl) | rfl) | rfl) <;> cases hc

theorem isWord_intText (n : Int) : isWord (intText n) = true := by
  have hne : (intText n).toList ≠ [] := by
    rw [intText, String.toList_ofList]
    split
    · exact List.cons_ne_nil _ _
    · exact Nat.toDigits_ne_nil
  rw [isWord, List.isEmpty_eq_false_iff.mpr hne, Bool.not_false, Bool.true_and, List.all_eq_true]
  intro c hc
  rcases mem_intText hc with rfl | hdigit
  · rfl
  · exact isWordChar_of_isDigit hdigit

/-- The sign and the digits of an integer are those of no other. -/
theorem intText_injective : Function.Injective intText := by
  intro m n h
  have hdigits {a b : Nat} (hab : digitsOf a = digitsOf b) : a = b :=
    toDigits_injective (by decide) (by decide) hab
  have hsign {a : Nat} : '-' ∉ digitsOf a := fun hmem ↦
    absurd (Nat.isDigit_of_mem_toDigits (by decide) (by decide) hmem) (by decide)
  have hlists := congrArg String.toList h
  simp only [intText, String.toList_ofList] at hlists
  -- Either both numbers have a sign or neither has: the sign of one is no digit of the other.
  split at hlists <;> split at hlists
  case isTrue.isTrue hm hn =>
    have habs := hdigits (List.cons.inj hlists).2
    omega
  case isTrue.isFalse => exact absurd (hlists ▸ List.mem_cons_self) hsign
  case isFalse.isTrue => exact absurd (hlists ▸ List.mem_cons_self) hsign
  case isFalse.isFalse hm hn =>
    have habs := hdigits hlists
    omega

theorem natText_eq_intText (n : Nat) : natText n = intText n := by
  rw [natText, intText, if_neg (by omega), Int.natAbs_natCast]

/-- An integer as a word. -/
def Word.ofInt (n : Int) : Word := ⟨intText n, isWord_intText n⟩

theorem Word.ofInt_injective : Function.Injective Word.ofInt := fun _ _ h ↦
  intText_injective (congrArg Word.text h)

/-- Only the sign and digits stand in a number. -/
theorem Word.ofInt_ne_of_mem {w : Word} {c : Char} (hc : c ∈ w.text.toList)
    (hne : c ≠ '-') (hdigit : c.isDigit = false) (n : Int) : Word.ofInt n ≠ w := by
  rintro rfl
  rcases mem_intText hc with rfl | htrue
  · exact hne rfl
  · rw [hdigit] at htrue
    cases htrue

/-! ## Cursors -/

namespace Cursor

/-- The term of which the description of a cursor is the text. -/
def term (c : Cursor) : Term :=
  .record ⟨"Cursor", rfl⟩ ⟨"source", rfl⟩ (.quoted '"' (.inl rfl) c.source.toList)
    [(⟨"offset", rfl⟩, .word (.ofInt c.offset))]

theorem describe_eq (c : Cursor) : c.describe = c.term.text := by
  rw [describe, natText_eq_intText]
  rfl

theorem term_injective : Function.Injective term := by
  intro c d h
  simp only [term, Term.record.injEq, Term.quoted.injEq, Term.word.injEq, List.cons.injEq,
    Prod.mk.injEq, true_and, and_true] at h
  obtain ⟨hsource, hoffset⟩ := h
  have hsource : c.source = d.source := String.toList_injective hsource
  have hoffset : c.offset = d.offset := Int.ofNat.inj (Word.ofInt_injective hoffset)
  cases c
  cases d
  cases hsource
  cases hoffset
  rfl

theorem describe_eq_iff {c d : Cursor} : c.describe = d.describe ↔ c = d := by
  constructor
  · intro h
    rw [describe_eq, describe_eq] at h
    exact term_injective (Term.text_injective h)
  · rintro rfl
    rfl

end Cursor

/-! ## Values -/

namespace Value

/-- The values that have a description. -/
inductive IsScalar : Value → Prop where
  | unit : IsScalar unit
  | bool (b : Bool) : IsScalar (bool b)
  | int (n : Int) : IsScalar (int n)
  | char (c : Char) : IsScalar (char c)
  | str (s : String) : IsScalar (str s)

/-- The term of a scalar, and two points for all other values. -/
def term : Value → Term
  | unit => .word ⟨"()", rfl⟩
  | bool true => .word ⟨"true", rfl⟩
  | bool false => .word ⟨"false", rfl⟩
  | int n => .word (.ofInt n)
  | char c => .quoted '\x27' (.inr rfl) [c]
  | str s => .quoted '"' (.inl rfl) s.toList
  | _ => .word ⟨"..", rfl⟩

variable {v w : Value}

theorem IsScalar.describe?_eq (hv : v.IsScalar) : v.describe? = some v.term.text := by
  cases hv with
  | bool b => cases b <;> rfl
  | unit | int | char | str => rfl

/-- An integer is told from the other scalars by a character that stands in no number. -/
theorem IsScalar.eq_int_of_term_eq (hv : v.IsScalar) {n : Int} (h : v.term = .word (.ofInt n)) :
    v = .int n := by
  have hne {w : Word} (c : Char) (hc : c ∈ w.text.toList) (hsign : c ≠ '-')
      (hdigit : c.isDigit = false) : Term.word w ≠ .word (.ofInt n) := fun h ↦
    Word.ofInt_ne_of_mem hc hsign hdigit n (Term.word.inj h).symm
  cases hv with
  | int m => rw [Word.ofInt_injective (Term.word.inj h)]
  | unit => exact absurd h (hne '(' (by simp) (by decide) (by decide))
  | bool b =>
    cases b with
    | true => exact absurd h (hne 't' (by simp) (by decide) (by decide))
    | false => exact absurd h (hne 'f' (by simp) (by decide) (by decide))
  | char | str => cases h

theorem IsScalar.eq_of_term_eq (hv : v.IsScalar) (hw : w.IsScalar) (h : v.term = w.term) :
    v = w := by
  cases hv with
  | int n => exact (hw.eq_int_of_term_eq h.symm).symm
  | unit =>
    cases hw with
    | unit => rfl
    | int n => exact IsScalar.unit.eq_int_of_term_eq h
    | bool b => cases b <;> simp [term, Word.ext_iff] at h
    | char | str => cases h
  | bool b =>
    cases hw with
    | bool b' => cases b <;> cases b' <;> simp [term, Word.ext_iff] at h ⊢
    | int n => exact (IsScalar.bool b).eq_int_of_term_eq h
    | unit | char | str => cases b <;> simp [term, Word.ext_iff] at h
  | char c =>
    cases hw with
    | char d => simpa [term] using h
    | int n => exact (IsScalar.char c).eq_int_of_term_eq h
    | unit | str => simp [term] at h
    | bool b => cases b <;> simp [term] at h
  | str s =>
    cases hw with
    | str t => simpa [term, String.toList_inj] using h
    | int n => exact (IsScalar.str s).eq_int_of_term_eq h
    | unit | char => simp [term] at h
    | bool b => cases b <;> simp [term] at h

end Value

/-! ## Parsers -/

namespace Blueprint

/-- Parsers that hold no functions and hide nothing, by how they are built. -/
inductive IsPlain : Blueprint → Prop where
  | integer : IsPlain integer
  | float : IsPlain float
  | anyChar : IsPlain anyChar
  | never : IsPlain never
  | literal (expected : String) : IsPlain (literal expected)
  | always {v : Value} (hv : v.IsScalar) : IsPlain (always v)
  | attempt {p : Blueprint} (hp : IsPlain p) : IsPlain p.attempt
  | zip {p q : Blueprint} (hp : IsPlain p) (hq : IsPlain q) : IsPlain (p.zip q)
  | zip3 {p q r : Blueprint} (hp : IsPlain p) (hq : IsPlain q) (hr : IsPlain r) :
      IsPlain (p.zip3 q r)
  | zip4 {p q r s : Blueprint} (hp : IsPlain p) (hq : IsPlain q) (hr : IsPlain r)
      (hs : IsPlain s) : IsPlain (p.zip4 q r s)
  | zip5 {p q r s t : Blueprint} (hp : IsPlain p) (hq : IsPlain q) (hr : IsPlain r)
      (hs : IsPlain s) (ht : IsPlain t) : IsPlain (p.zip5 q r s t)
  | zip6 {p q r s t u : Blueprint} (hp : IsPlain p) (hq : IsPlain q) (hr : IsPlain r)
      (hs : IsPlain s) (ht : IsPlain t) (hu : IsPlain u) : IsPlain (p.zip6 q r s t u)
  | zip7 {p q r s t u v : Blueprint} (hp : IsPlain p) (hq : IsPlain q) (hr : IsPlain r)
      (hs : IsPlain s) (ht : IsPlain t) (hu : IsPlain u) (hv : IsPlain v) :
      IsPlain (p.zip7 q r s t u v)
  | keepLeft {p q : Blueprint} (hp : IsPlain p) (hq : IsPlain q) : IsPlain (p.keepLeft q)
  | keepRight {p q : Blueprint} (hp : IsPlain p) (hq : IsPlain q) : IsPlain (p.keepRight q)
  | skipBoth {p q : Blueprint} (hp : IsPlain p) (hq : IsPlain q) : IsPlain (p.skipBoth q)
  | apply {p q : Blueprint} (hp : IsPlain p) (hq : IsPlain q) : IsPlain (p.apply q)

/-- A record around the sequence of two parsers. -/
def aroundTerm (name : Word) (first second : Term) : Term :=
  .record name ⟨"zip", rfl⟩
    (.record ⟨"Zip", rfl⟩ ⟨"a", rfl⟩ first [(⟨"b", rfl⟩, second)]) []

theorem aroundTerm_inj {name : Word} {s t s' t' : Term}
    (h : aroundTerm name s t = aroundTerm name s' t') : s = s' ∧ t = t' := by
  simpa only [aroundTerm, Term.record.injEq, List.cons.injEq, Prod.mk.injEq, true_and,
    and_true] using h

/-- The term of a plain parser, and two points for all others. -/
def term : Blueprint → Term
  | integer => .word ⟨"IntegerParser", rfl⟩
  | float => .word ⟨"FloatParser", rfl⟩
  | anyChar => .word ⟨"AnyCharParser", rfl⟩
  | never => .word ⟨"Never", rfl⟩
  | literal expected =>
    .record ⟨"LiteralParser", rfl⟩ ⟨"expected", rfl⟩ (.quoted '"' (.inl rfl) expected.toList) []
  | always v => .record ⟨"Always", rfl⟩ ⟨"value", rfl⟩ v.term []
  | attempt p => .record ⟨"Attempt", rfl⟩ ⟨"parser", rfl⟩ p.term []
  | zip p q =>
    .record ⟨"Zip", rfl⟩ ⟨"a", rfl⟩ p.term
      [(⟨"b", rfl⟩, q.term)]
  | zip3 p q r =>
    .record ⟨"Zip3", rfl⟩ ⟨"a", rfl⟩ p.term
      [(⟨"b", rfl⟩, q.term), (⟨"c", rfl⟩, r.term)]
  | zip4 p q r s =>
    .record ⟨"Zip4", rfl⟩ ⟨"a", rfl⟩ p.term
      [(⟨"b", rfl⟩, q.term), (⟨"c", rfl⟩, r.term), (⟨"d", rfl⟩, s.term)]
  | zip5 p q r s t =>
    .record ⟨"Zip5", rfl⟩ ⟨"a", rfl⟩ p.term
      [(⟨"b", rfl⟩, q.term), (⟨"c", rfl⟩, r.term), (⟨"d", rfl⟩, s.term),
        (⟨"e", rfl⟩, t.term)]
  | zip6 p q r s t u =>
    .record ⟨"Zip6", rfl⟩ ⟨"a", rfl⟩ p.term
      [(⟨"b", rfl⟩, q.term), (⟨"c", rfl⟩, r.term), (⟨"d", rfl⟩, s.term),
        (⟨"e", rfl⟩, t.term), (⟨"f", rfl⟩, u.term)]
  | zip7 p q r s t u v =>
    .record ⟨"Zip7", rfl⟩ ⟨"a", rfl⟩ p.term
      [(⟨"b", rfl⟩, q.term), (⟨"c", rfl⟩, r.term), (⟨"d", rfl⟩, s.term),
        (⟨"e", rfl⟩, t.term), (⟨"f", rfl⟩, u.term), (⟨"g", rfl⟩, v.term)]
  | keepLeft p q => aroundTerm ⟨"KeepAndSkip", rfl⟩ p.term q.term
  | keepRight p q => aroundTerm ⟨"SkipAndKeep", rfl⟩ p.term q.term
  | skipBoth p q => aroundTerm ⟨"SkipAndSkip", rfl⟩ p.term q.term
  | apply p q => aroundTerm ⟨"Apply", rfl⟩ p.term q.term
  | _ => .word ⟨"..", rfl⟩

variable {p q : Blueprint}

theorem IsPlain.describe?_eq (hp : p.IsPlain) : p.describe? = some p.term.text := by
  induction hp with
  | integer | float | anyChar | never | literal => rfl
  | always hv =>
    rw [describe?, hv.describe?_eq]
    rfl
  | attempt | zip | zip3 | zip4 | zip5 | zip6 | zip7 | keepLeft | keepRight | skipBoth | apply =>
    simp only [describe?, Option.bind_eq_bind, Option.bind_some, *]
    rfl

/-- Parsers of different kinds have different names. -/
theorem IsPlain.ctorIdx_eq (hp : p.IsPlain) (hq : q.IsPlain) (h : p.term.head = q.term.head) :
    p.ctorIdx = q.ctorIdx := by
  cases hp <;> cases hq <;>
    first | rfl | exact absurd h (by simp [term, aroundTerm, Term.head])

/-- The parts are in the description in their order. So the induction goes from a parser to its
parts, and at each step the other parser is of the same kind. -/
theorem IsPlain.eq_of_term_eq (hp : p.IsPlain) (hq : q.IsPlain) (h : p.term = q.term) : p = q := by
  have hplain := hp
  -- Parsers of different kinds are done with at once, so one case for each kind is left.
  induction hp generalizing q <;> have hkind := hplain.ctorIdx_eq hq (congrArg Term.head h) <;>
    cases hq <;> try (cases hkind; done)
  case integer.integer | float.float | anyChar.anyChar | never.never => rfl
  case literal.literal => simpa [term, String.toList_inj] using h
  case always.always hv _ hw => rw [hv.eq_of_term_eq hw (Term.record.inj h).2.2.1]
  case attempt.attempt hp ih _ hq => rw [ih hq (Term.record.inj h).2.2.1 hp]
  case keepLeft.keepLeft | keepRight.keepRight | skipBoth.skipBoth | apply.apply =>
    obtain ⟨hfirst, hsecond⟩ := aroundTerm_inj h
    grind
  case zip.zip | zip3.zip3 | zip4.zip4 | zip5.zip5 | zip6.zip6 | zip7.zip7 =>
    simp only [term, Term.record.injEq, List.cons.injEq, Prod.mk.injEq, true_and, and_true] at h
    grind

/-- **A description determines the parser.** Plain parsers have descriptions, and two of them with
the same description are the same parser, so that they do the same at every cursor. Two cursors have
the same description exactly if they are the same. -/
theorem describe?_determines :
    (∀ p : Blueprint, p.IsPlain → ∃ text, p.describe? = some text) ∧
    (∀ p q : Blueprint, p.IsPlain → q.IsPlain → p.describe? = q.describe? →
      p = q ∧ ∀ c, p.parser.run c = q.parser.run c) ∧
    ∀ c d : Cursor, c.describe = d.describe ↔ c = d := by
  refine ⟨fun p hp ↦ ⟨_, hp.describe?_eq⟩, fun p q hp hq h ↦ ?_, fun c d ↦
    Cursor.describe_eq_iff⟩
  rw [hp.describe?_eq, hq.describe?_eq] at h
  obtain rfl : p = q := hp.eq_of_term_eq hq (Term.text_injective (Option.some.inj h))
  exact ⟨rfl, fun _ ↦ rfl⟩

/-- What a sealed parser holds cannot be told. -/
example : integer.sealed.describe? = float.sealed.describe? := rfl

/-- A fixed text that would close its record and the sequence, were it not between quotes. No other
parser has this description. -/
theorem describe?_determines_lookalike :
    (zip (literal "\" \x7d, b: Never \x7d") (always (.char '\x27'))).describe? =
        some ("Zip \x7b a: LiteralParser \x7b expected: \"\\\" \x7d, b: Never \x7d\" \x7d, " ++
          "b: Always \x7b value: '\\'' \x7d \x7d") ∧
      ∀ p : Blueprint, p.IsPlain →
        p.describe? =
          (zip (literal "\" \x7d, b: Never \x7d") (always (.char '\x27'))).describe? →
        p = zip (literal "\" \x7d, b: Never \x7d") (always (.char '\x27')) := by
  obtain ⟨-, hsame, -⟩ := describe?_determines
  have hplain : IsPlain (zip (literal "\" \x7d, b: Never \x7d") (always (.char '\x27'))) :=
    .zip (.literal _) (.always (.char _))
  exact ⟨by decide +kernel, fun p hp h ↦ (hsame p _ hp hplain h).1⟩

end Blueprint

end PrefixParsing
