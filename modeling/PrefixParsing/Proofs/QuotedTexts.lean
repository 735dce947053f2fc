import Mathlib.Tactic.SplitIfs
import PrefixParsing.Proofs.Readings
import PrefixParsing.Text.Quoted

/-!
# Quoted texts can be told apart

A quoted text may hold anything, quotes and backslashes included, and anything may be behind it.
Still it says where it ends and which characters it shows. So two texts that start with a quoted
text and agree have quoted the same, and agree behind the closing quote (`enclose_append_inj`).

## Three ways to show a character

What `escape` writes has one of three shapes: the character itself, a backslash and one character,
or a code point in hexadecimal between braces (`Shows`). The first character tells the first shape
from the others, and the second one these two from each other. No shape starts with the quote that
closes the text.
-/

namespace PrefixParsing.Text

/-! ## Digits of a number -/

variable {b : Nat}

theorem exists_digitChar_of_mem_toDigits (hb : 1 < b) {n : Nat} {c : Char}
    (hc : c ∈ Nat.toDigits b n) : ∃ d < b, c = d.digitChar := by
  induction n using Nat.strongRecOn with
  | ind n ih =>
    rw [Nat.toDigits_eq_if hb] at hc
    split at hc
    case isTrue hn => exact ⟨n, hn, List.mem_singleton.mp hc⟩
    case isFalse hn =>
      rcases List.mem_append.mp hc with hc | hc
      · exact ih (n / b) (Nat.div_lt_self (by omega) hb) hc
      · exact ⟨n % b, Nat.mod_lt n (by omega), List.mem_singleton.mp hc⟩

theorem digitChar_inj_of_lt {m n : Nat} (hm : m < 16) (hn : n < 16)
    (h : m.digitChar = n.digitChar) : m = n := by
  have hdigits : ∀ i j : Fin 16, Nat.digitChar i = Nat.digitChar j → i = j := by decide
  exact congrArg Fin.val (hdigits ⟨m, hm⟩ ⟨n, hn⟩ h)

theorem toDigits_injective (hb : 1 < b) (hb' : b ≤ 16) : Function.Injective (Nat.toDigits b) := by
  intro m n h
  induction m using Nat.strongRecOn generalizing n with
  | ind m ih =>
    rw [Nat.toDigits_eq_if hb, Nat.toDigits_eq_if (n := n) hb] at h
    split at h <;> split at h
    case isTrue.isTrue hm hn =>
      exact digitChar_inj_of_lt (by omega) (by omega) (List.singleton_inj.mp h)
    case isTrue.isFalse =>
      exact absurd (List.singleton_eq_append_iff.mp h) (by simp [Nat.toDigits_ne_nil])
    case isFalse.isTrue =>
      exact absurd (List.append_eq_singleton_iff.mp h) (by simp [Nat.toDigits_ne_nil])
    case isFalse.isFalse hm hn =>
      obtain ⟨hquotient, hdigit⟩ := List.append_singleton_inj.mp h
      have hmod : m % b = n % b := digitChar_inj_of_lt
        (Nat.lt_of_lt_of_le (Nat.mod_lt m (by omega)) hb')
        (Nat.lt_of_lt_of_le (Nat.mod_lt n (by omega)) hb') hdigit
      have hdiv := ih (m / b) (Nat.div_lt_self (by omega) hb) hquotient
      rw [← Nat.div_add_mod m b, ← Nat.div_add_mod n b, hdiv, hmod]

/-! ## Shown characters -/

/-- The character that a backslash and `letter` stand for. -/
def named : Char → Char
  | '0' => '\x00'
  | 't' => '\t'
  | 'r' => '\r'
  | 'n' => '\n'
  | letter => letter

/-- The code point of `c` in hexadecimal, with the brace behind it. -/
def codeChars (c : Char) : List Char := Nat.toDigits 16 c.toNat ++ ['\x7d']

/-- The shapes in which a character `c` is shown between two quotes `quote`. -/
inductive Shows (quote c : Char) : List Char → Prop where
  | plain (hbackslash : c ≠ '\\') (hquote : c ≠ quote) : Shows quote c [c]
  | letter (letter : Char) (hne : letter ≠ 'u') (hnamed : named letter = c) :
      Shows quote c ['\\', letter]
  | code : Shows quote c ('\\' :: 'u' :: '\x7b' :: codeChars c)

variable {quote c d : Char} {x y : List Char}

theorem shows_escape (hquote : quote = '"' ∨ quote = '\x27') (c : Char) :
    Shows quote c (escape quote c) := by
  have hnamed : named quote = quote ∧ quote ≠ 'u' := by rcases hquote with rfl | rfl <;> decide
  rw [escape]
  split_ifs with h₀ ht hr hn hself
  · exact .letter '0' (by decide) h₀.symm
  · exact .letter 't' (by decide) ht.symm
  · exact .letter 'r' (by decide) hr.symm
  · exact .letter 'n' (by decide) hn.symm
  · rcases hself with rfl | rfl
    · exact .letter '\\' (by decide) rfl
    · exact .letter c hnamed.2 hnamed.1
  · exact .plain (fun h ↦ hself (.inl h)) fun h ↦ hself (.inr h)
  · exact .code

/-- A code point ends at its brace, which is no digit. -/
theorem codeChars_append_inj (h : codeChars c ++ x = codeChars d ++ y) : c = d ∧ x = y := by
  have hrun (e : Char) (z : List Char) :
      IsLeadingRun (· != '\x7d') (Nat.toDigits 16 e.toNat) ('\x7d' :: z) := by
    refine ⟨fun a ha ↦ ?_, fun a ha ↦ ?_⟩
    · obtain ⟨digit, -, rfl⟩ := exists_digitChar_of_mem_toDigits (by decide) ha
      exact bne_iff_ne.mpr (Nat.digitChar_ne '\x7d' (by decide))
    · rw [← Option.some.inj ha]
      rfl
  simp only [codeChars, List.append_assoc, List.singleton_append] at h
  obtain ⟨hdigits, hrest⟩ := (hrun c x).unique (hrun d y) h
  have hcode : c.toNat = d.toNat := toDigits_injective (by decide) (by decide) hdigits
  exact ⟨Char.toNat_inj.mp hcode, (List.cons.inj hrest).2⟩

/-- The three shapes exclude each other, and each of them shows one character. -/
theorem Shows.append_inj {shown shown' : List Char} (h : Shows quote c shown)
    (h' : Shows quote d shown') (heq : shown ++ x = shown' ++ y) : c = d ∧ x = y := by
  cases h with
  | plain hbackslash _ =>
    cases h' with
    | plain => exact List.cons.inj heq
    | letter | code => exact absurd (List.cons.inj heq).1 hbackslash
  | letter letter hne hnamed =>
    cases h' with
    | plain hbackslash => exact absurd (List.cons.inj heq).1.symm hbackslash
    | letter letter' _ hnamed' =>
      obtain ⟨rfl, hrest⟩ := List.cons.inj (List.cons.inj heq).2
      exact ⟨hnamed.symm.trans hnamed', hrest⟩
    | code => exact absurd (List.cons.inj (List.cons.inj heq).2).1 hne
  | code =>
    cases h' with
    | plain hbackslash => exact absurd (List.cons.inj heq).1.symm hbackslash
    | letter letter hne => exact absurd (List.cons.inj (List.cons.inj heq).2).1.symm hne
    | code => exact codeChars_append_inj ((List.append_right_inj ['\\', 'u', '\x7b']).mp heq)

theorem Shows.append_ne {shown : List Char} (hquote : quote = '"' ∨ quote = '\x27')
    (h : Shows quote c shown) : shown ++ x ≠ quote :: y := by
  have hne : '\\' ≠ quote := by rcases hquote with rfl | rfl <;> decide
  intro heq
  cases h with
  | plain _ hplain => exact hplain (List.cons.inj heq).1
  | letter | code => exact hne (List.cons.inj heq).1

/-! ## Quoted texts -/

/-- **A quoted text says where it ends.** What it shows and what is behind it are decided by the
characters. -/
theorem enclose_append_inj (hquote : quote = '"' ∨ quote = '\x27') {cs ds : List Char}
    (h : enclose quote cs ++ x = enclose quote ds ++ y) : cs = ds ∧ x = y := by
  simp only [enclose, List.append_assoc, List.cons_append, List.nil_append, List.cons.injEq,
    true_and] at h
  induction cs generalizing ds with
  | nil =>
    cases ds with
    | nil => exact ⟨rfl, (List.cons.inj h).2⟩
    | cons d ds =>
      -- Here the first text has ended, but the second one shows a character where the quote is.
      rw [List.flatMap_cons, List.append_assoc] at h
      exact absurd h.symm ((shows_escape hquote d).append_ne hquote)
  | cons c cs ih =>
    rw [List.flatMap_cons, List.append_assoc] at h
    cases ds with
    | nil => exact absurd h ((shows_escape hquote c).append_ne hquote)
    | cons d ds =>
      rw [List.flatMap_cons, List.append_assoc] at h
      obtain ⟨rfl, hrest⟩ := (shows_escape hquote c).append_inj (shows_escape hquote d) h
      obtain ⟨rfl, hbehind⟩ := ih hrest
      exact ⟨rfl, hbehind⟩

end PrefixParsing.Text
