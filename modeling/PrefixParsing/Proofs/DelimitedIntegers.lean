import PrefixParsing.Proofs.PiecesInPlace

/-!
# Integers with separators

A list of integers with a separator between any two of them, as in `1.20.3`, is parsed by a chain of
integers and fixed texts. The chain accepts the texts that are made up of numerals and separators in
this way and no others, and the numerals are determined by the text.

## The separator

Only the first character of a separator matters: it must be no digit, or a numeral would run on into
it (`IsSeparator`). Behind it anything may stand. A separator can have digits of its own, and the
numeral behind it starts where the separator ends, because a fixed text takes exactly its
characters.

## The first numeral and the others

Each numeral but the first one has a separator in front. So a text is described as a numeral and
what is behind it (`toList_intercalate_cons`), and the inductions are on the numerals behind, where
what follows a numeral is empty or starts with a separator.
-/

namespace PrefixParsing

open Text

/-! ## Numerals and separators -/

/-- A separator stops a run of digits: it is not empty, and its first character is no digit. -/
def IsSeparator (sep : String) : Prop := ∃ x, sep.toList.head? = some x ∧ x.isDigit = false

/-- A run of digits that is not empty. -/
structure IsNumeral (numeral : String) : Prop where
  ne_empty : numeral ≠ ""
  isDigit : ∀ x ∈ numeral.toList, x.isDigit = true

/-- `numeral` has the value `n`, which is not too large to be read. -/
structure Spells (numeral : String) (n : Int) : Prop extends IsNumeral numeral where
  value_le : placeValue numeral.toList ≤ 2 ^ 63 - 1
  value_eq : n = placeValue numeral.toList

theorem spells_toString {n : ℕ} (hn : n ≤ 2 ^ 63 - 1) : Spells (toString n) n := by
  have hdigits : (toString n).toList = Nat.toDigits 10 n := by
    rw [Nat.toString_eq_ofList_toDigits, String.toList_ofList]
  refine ⟨⟨?_, ?_⟩, ?_, ?_⟩
  · intro hempty
    rw [hempty] at hdigits
    exact Nat.toDigits_ne_nil hdigits.symm
  · rw [hdigits]
    exact fun x hx ↦ Nat.isDigit_of_mem_toDigits (by decide) (by decide) hx
  · rwa [hdigits, placeValue_toDigits]
  · rw [hdigits, placeValue_toDigits]

/-- The numerals behind the first one, each with the separator in front of it. -/
def behindFirst (sep : String) (numerals : List String) : List Char :=
  numerals.flatMap fun numeral ↦ sep.toList ++ numeral.toList

theorem toList_intercalate_cons (sep numeral : String) (numerals : List String) :
    (sep.intercalate (numeral :: numerals)).toList =
      numeral.toList ++ behindFirst sep numerals := by
  induction numerals generalizing numeral with
  | nil => rw [String.intercalate_singleton, behindFirst, List.flatMap_nil, List.append_nil]
  | cons next numerals ih =>
    rw [String.intercalate_cons_cons, String.toList_append, String.toList_append, ih, behindFirst,
      behindFirst, List.flatMap_cons, List.append_assoc, List.append_assoc]

namespace IsSeparator

variable {sep : String}

theorem head?_append (hsep : IsSeparator sep) (rest : List Char) :
    ∃ x, (sep.toList ++ rest).head? = some x ∧ x.isDigit = false := by
  obtain ⟨x, hx, hdigit⟩ := hsep
  refine ⟨x, ?_, hdigit⟩
  rw [List.head?_append, hx, Option.some_or]

/-- A numeral does not run on into what is behind it. -/
theorem isLeadingRun (hsep : IsSeparator sep) {digits : List Char}
    (h : ∀ x ∈ digits, x.isDigit = true) (numerals : List String) :
    IsLeadingRun Char.isDigit digits (behindFirst sep numerals) := by
  refine ⟨h, fun x hx ↦ ?_⟩
  rcases numerals with _ | ⟨numeral, numerals⟩
  · exact absurd hx.symm (Option.some_ne_none x)
  · rw [behindFirst, List.flatMap_cons, List.append_assoc] at hx
    obtain ⟨y, hy, hdigit⟩ := hsep.head?_append (numeral.toList ++ behindFirst sep numerals)
    rwa [Option.some.inj (hx.symm.trans hy)]

theorem behindFirst_injective (hsep : IsSeparator sep) {numerals numerals' : List String}
    (h : ∀ numeral ∈ numerals, IsNumeral numeral) (h' : ∀ numeral ∈ numerals', IsNumeral numeral)
    (heq : behindFirst sep numerals = behindFirst sep numerals') : numerals = numerals' := by
  -- behind the last numeral nothing is left, not even a separator
  have hne (numeral : String) (others : List String) :
      behindFirst sep (numeral :: others) ≠ [] := by
    intro hnil
    rw [behindFirst, List.flatMap_cons, List.append_assoc] at hnil
    obtain ⟨x, hx, -⟩ := hsep.head?_append (numeral.toList ++ behindFirst sep others)
    exact absurd (hx.symm.trans (congrArg List.head? hnil)) (Option.some_ne_none x)
  induction numerals generalizing numerals' with
  | nil =>
    rcases numerals' with _ | ⟨numeral', numerals'⟩
    · rfl
    · exact absurd heq.symm (hne numeral' numerals')
  | cons numeral numerals ih =>
    rcases numerals' with _ | ⟨numeral', numerals'⟩
    · exact absurd heq (hne numeral numerals)
    · obtain ⟨hnumeral, hnumerals⟩ := List.forall_mem_cons.mp h
      obtain ⟨hnumeral', hnumerals'⟩ := List.forall_mem_cons.mp h'
      simp only [behindFirst, List.flatMap_cons, List.append_assoc] at heq
      have hrun := hsep.isLeadingRun hnumeral.isDigit numerals
      have hrun' := hsep.isLeadingRun hnumeral'.isDigit numerals'
      obtain ⟨hfirst, hothers⟩ := hrun.unique hrun' (List.append_cancel_left heq)
      rw [String.toList_injective hfirst, ih hnumerals hnumerals' hothers]

/-- Numerals can be told from the text that they make up. -/
theorem intercalate_injective (hsep : IsSeparator sep) {numerals numerals' : List String}
    (h : ∀ numeral ∈ numerals, IsNumeral numeral) (h' : ∀ numeral ∈ numerals', IsNumeral numeral)
    (heq : sep.intercalate numerals = sep.intercalate numerals') : numerals = numerals' := by
  have hne {numeral : String} {others : List String} (hnumeral : IsNumeral numeral) :
      sep.intercalate (numeral :: others) ≠ "" := by
    intro hempty
    have hnil := toList_intercalate_cons sep numeral others
    rw [hempty] at hnil
    exact hnumeral.ne_empty (String.toList_injective (List.append_eq_nil_iff.mp hnil.symm).1)
  rcases numerals with _ | ⟨numeral, numerals⟩
  · rcases numerals' with _ | ⟨numeral', numerals'⟩
    · rfl
    · exact absurd heq.symm (hne (h' _ List.mem_cons_self))
  · rcases numerals' with _ | ⟨numeral', numerals'⟩
    · exact absurd heq (hne (h _ List.mem_cons_self))
    · have hbehind := congrArg (sep.toList ++ String.toList ·) heq
      simp only [toList_intercalate_cons] at hbehind
      refine hsep.behindFirst_injective h h' ?_
      simpa only [behindFirst, List.flatMap_cons, List.append_assoc] using hbehind

end IsSeparator

/-! ## Parsers and their outputs -/

/-- An integer, and `k` times the separator and an integer. -/
def delimitedParsers (sep : String) (k : ℕ) : List AnyParser :=
  ⟨Parser.integer⟩ :: (List.replicate k [⟨Parser.literal sep⟩, ⟨Parser.integer⟩]).flatten

/-- The outputs behind that of the first parser, where the integers are `ns`. -/
def outputsBehindFirst (sep : String) (ns : List Int) : List Component :=
  ns.flatMap fun n ↦ [⟨⟨Parser.literal sep⟩, ()⟩, ⟨⟨Parser.integer⟩, n⟩]

/-- The parsers with their outputs, where the integers are `n :: ns`. -/
def delimitedOutputs (sep : String) (n : Int) (ns : List Int) : List Component :=
  ⟨⟨Parser.integer⟩, n⟩ :: outputsBehindFirst sep ns

section

variable {sep : String} {pieces : List (List Char)}

theorem takes_integer_iff_spells (hsep : IsSeparator sep) {n : Int} {piece : List Char}
    (numerals : List String) :
    Parser.integer.Takes n piece (behindFirst sep numerals) ↔ Spells (String.ofList piece) n := by
  rw [Parser.takes_integer_iff]
  constructor
  · rintro ⟨hrun, hne, hvalue, rfl⟩
    refine ⟨⟨?_, ?_⟩, ?_, ?_⟩
    · rwa [Ne, String.ofList_eq_empty_iff]
    · rw [String.toList_ofList]
      exact hrun.accepted
    · rwa [String.toList_ofList]
    · rw [String.toList_ofList]
  · intro h
    have hdigits := h.isDigit
    have hle := h.value_le
    have heq := h.value_eq
    rw [String.toList_ofList] at hdigits hle heq
    refine ⟨hsep.isLeadingRun hdigits numerals, ?_, hle, heq⟩
    rintro rfl
    exact h.ne_empty rfl

/-- The pieces behind the first numeral: separators and numerals in turn. -/
def piecesBehindFirst (sep : String) (numerals : List String) : List (List Char) :=
  numerals.flatMap fun numeral ↦ [sep.toList, numeral.toList]

theorem piecesBehindFirst_cons (numeral : String) (numerals : List String) :
    piecesBehindFirst sep (numeral :: numerals) =
      sep.toList :: numeral.toList :: piecesBehindFirst sep numerals := rfl

theorem flatten_piecesBehindFirst (numerals : List String) :
    (piecesBehindFirst sep numerals).flatten = behindFirst sep numerals := by
  induction numerals with
  | nil => rfl
  | cons numeral numerals ih =>
    rw [piecesBehindFirst_cons, List.flatten_cons, List.flatten_cons, ih, behindFirst, behindFirst,
      List.flatMap_cons, List.append_assoc]

/-- Behind the first integer, the parsers take separators and numerals in turn. -/
theorem takeInTurn_outputsBehindFirst_iff (hsep : IsSeparator sep) {ns : List Int} :
    TakeInTurn (outputsBehindFirst sep ns) pieces [] ↔ ∃ numerals : List String,
      pieces = piecesBehindFirst sep numerals ∧ List.Forall₂ Spells numerals ns := by
  induction ns generalizing pieces with
  | nil =>
    rw [outputsBehindFirst, List.flatMap_nil, takeInTurn_nil_iff]
    constructor
    · rintro rfl
      exact ⟨[], rfl, .nil⟩
    · rintro ⟨numerals, rfl, h⟩
      rw [List.forall₂_nil_right_iff.mp h, piecesBehindFirst, List.flatMap_nil]
  | cons n ns ih =>
    rw [outputsBehindFirst, List.flatMap_cons, List.cons_append, List.singleton_append]
    simp only [takeInTurn_cons_iff, Parser.takes_literal_iff, List.append_nil]
    constructor
    · rintro ⟨_, _, rfl, rfl, piece, others, rfl, hpiece, hothers⟩
      obtain ⟨numerals, rfl, hnumerals⟩ := ih.mp hothers
      rw [flatten_piecesBehindFirst, takes_integer_iff_spells hsep] at hpiece
      refine ⟨String.ofList piece :: numerals, ?_, .cons hpiece hnumerals⟩
      rw [piecesBehindFirst_cons, String.toList_ofList]
    · rintro ⟨numerals, rfl, h⟩
      obtain ⟨numeral, others, hnumeral, hothers, rfl⟩ := List.forall₂_cons_right_iff.mp h
      refine ⟨_, _, piecesBehindFirst_cons numeral others, rfl, _, _, rfl, ?_,
        ih.mpr ⟨others, rfl, hothers⟩⟩
      rwa [flatten_piecesBehindFirst, takes_integer_iff_spells hsep, String.ofList_toList]

/-- The parsers take a text exactly if it is made up of numerals and separators. -/
theorem exists_takeInTurn_delimitedOutputs_iff (hsep : IsSeparator sep) {n : Int} {ns : List Int}
    {text : String} :
    (∃ pieces, text.toList = pieces.flatten ∧ TakeInTurn (delimitedOutputs sep n ns) pieces []) ↔
      ∃ numerals, text = sep.intercalate numerals ∧ List.Forall₂ Spells numerals (n :: ns) := by
  simp only [delimitedOutputs, takeInTurn_cons_iff, takeInTurn_outputsBehindFirst_iff hsep,
    List.append_nil]
  constructor
  · rintro ⟨_, htext, piece, _, rfl, hpiece, numerals, rfl, hnumerals⟩
    rw [flatten_piecesBehindFirst, takes_integer_iff_spells hsep] at hpiece
    refine ⟨String.ofList piece :: numerals, String.toList_injective ?_, .cons hpiece hnumerals⟩
    rw [htext, toList_intercalate_cons, String.toList_ofList, List.flatten_cons,
      flatten_piecesBehindFirst]
  · rintro ⟨numerals, rfl, h⟩
    obtain ⟨numeral, others, hnumeral, hothers, rfl⟩ := List.forall₂_cons_right_iff.mp h
    refine ⟨_, ?_, numeral.toList, piecesBehindFirst sep others, rfl, ?_, others, rfl, hothers⟩
    · rw [toList_intercalate_cons, List.flatten_cons, flatten_piecesBehindFirst]
    · rwa [flatten_piecesBehindFirst, takes_integer_iff_spells hsep, String.ofList_toList]

end

/-! ## Every way to put the parsers in sequence

The parsers of a sequence in any brackets are those at its leaves, and its value has one component
for each of them. -/

section

variable {sep : String}

theorem outputsBehindFirst_of_map_eq {k : ℕ} {ks : List Component}
    (h : ks.map Component.toAnyParser =
      (List.replicate k [⟨Parser.literal sep⟩, ⟨Parser.integer⟩]).flatten) :
    ∃ ns : List Int, ns.length = k ∧ ks = outputsBehindFirst sep ns := by
  induction k generalizing ks with
  | zero =>
    rw [List.replicate_zero, List.flatten_nil, List.map_eq_nil_iff] at h
    exact ⟨[], rfl, h⟩
  | succ k ih =>
    rw [List.replicate_succ, List.flatten_cons] at h
    obtain ⟨⟨⟨p⟩, u⟩, others, rfl, hp, hothers⟩ := List.map_eq_cons_iff.mp h
    obtain ⟨⟨⟨q⟩, n⟩, rest, rfl, hq, hrest⟩ := List.map_eq_cons_iff.mp hothers
    obtain ⟨ns, rfl, rfl⟩ := ih hrest
    cases hp
    cases hq
    exact ⟨n :: ns, rfl, rfl⟩

/-- The outputs of the parsers are integers, one more than there are separators. -/
theorem delimitedOutputs_of_map_eq {k : ℕ} {ks : List Component}
    (h : ks.map Component.toAnyParser = delimitedParsers sep k) :
    ∃ (n : Int) (ns : List Int), ns.length = k ∧ ks = delimitedOutputs sep n ns := by
  obtain ⟨⟨⟨p⟩, n⟩, others, rfl, hp, hothers⟩ := List.map_eq_cons_iff.mp h
  obtain ⟨ns, hlength, rfl⟩ := outputsBehindFirst_of_map_eq hothers
  cases hp
  exact ⟨n, ns, hlength, rfl⟩

end

namespace ZipTree

variable {α : Type}

theorem parse_delimited_iff {sep : String} (hsep : IsSeparator sep) {t : ZipTree α} {k : ℕ}
    (ht : t.leaves = delimitedParsers sep k) {text : String} {a : α} :
    t.parser.parse text = some a ↔
      ∃ numerals n ns, ns.length = k ∧ text = sep.intercalate numerals ∧
        List.Forall₂ Spells numerals (n :: ns) ∧ t.components a = delimitedOutputs sep n ns := by
  rw [(t.takesAs_components a).parse_eq_some_iff]
  constructor
  · intro h
    obtain ⟨n, ns, hlength, hcomponents⟩ :=
      delimitedOutputs_of_map_eq ((t.map_components a).trans ht)
    rw [hcomponents] at h ⊢
    obtain ⟨numerals, htext, hnumerals⟩ := (exists_takeInTurn_delimitedOutputs_iff hsep).mp h
    exact ⟨numerals, n, ns, hlength, htext, hnumerals, rfl⟩
  · rintro ⟨numerals, n, ns, -, htext, hnumerals, hcomponents⟩
    rw [hcomponents]
    exact (exists_takeInTurn_delimitedOutputs_iff hsep).mpr ⟨numerals, htext, hnumerals⟩

end ZipTree

/-! ## The chain -/

namespace Parser

variable {sep : String}

/-- An integer, and `k` times the separator and an integer. The integers are kept. -/
def delimited (sep : String) : ℕ → Parser (List Int)
  | 0 => map (fun n ↦ [n]) integer
  | k + 1 =>
    map (fun outputs ↦ outputs.1.1 ++ [outputs.2]) (zip (zip (delimited sep k) (literal sep)) integer)

/-- The chain takes what its parsers take in turn. The induction takes off the last separator and
the last integer. -/
theorem takesAs_delimited {k : ℕ} (n : Int) {ns : List Int} (h : ns.length = k) :
    (delimited sep k).TakesAs (n :: ns) (delimitedOutputs sep n ns) := by
  induction k generalizing ns with
  | zero =>
    obtain rfl := List.length_eq_zero_iff.mp h
    exact (takesAs_single integer n).map fun m hm ↦ (List.cons.inj hm).1
  | succ k ih =>
    obtain rfl | ⟨ms, m, rfl⟩ := List.eq_nil_or_concat' ns
    · exact absurd h (Nat.zero_ne_add_one k)
    · rw [List.length_append, List.length_singleton, Nat.add_right_cancel_iff] at h
      have hchain := ((ih h).zip (takesAs_single (literal sep) ())).zip (takesAs_single integer m)
      have hkept := hchain.map (f := fun outputs ↦ outputs.1.1 ++ [outputs.2])
        fun outputs heq ↦ by
          obtain ⟨hfirst, hlast⟩ := List.append_inj' heq rfl
          exact Prod.ext (Prod.ext hfirst rfl) (List.cons.inj hlast).1
      have hcomponents : delimitedOutputs sep n (ms ++ [m]) =
          (delimitedOutputs sep n ms ++ [⟨⟨literal sep⟩, ()⟩]) ++ [⟨⟨integer⟩, m⟩] := by
        rw [delimitedOutputs, outputsBehindFirst, List.flatMap_append, List.flatMap_singleton,
          delimitedOutputs, outputsBehindFirst, List.append_assoc]
        rfl
      rw [hcomponents]
      exact hkept

theorem length_of_takes_delimited {k : ℕ} {values : List Int} {taken behind : List Char}
    (h : (delimited sep k).Takes values taken behind) : values.length = k + 1 := by
  induction k generalizing values taken behind with
  | zero =>
    obtain ⟨n, rfl, -⟩ := takes_map_iff.mp h
    rfl
  | succ k ih =>
    obtain ⟨⟨⟨ms, u⟩, m⟩, rfl, hchain⟩ := takes_map_iff.mp h
    obtain ⟨first, last, rfl, hfirst, -⟩ := takes_zip_iff.mp hchain
    obtain ⟨start, separator, rfl, hstart, -⟩ := takes_zip_iff.mp hfirst
    rw [List.length_append, ih hstart, List.length_singleton]

theorem parse_delimited_eq_some_iff (hsep : IsSeparator sep) {k : ℕ} {text : String}
    {values : List Int} :
    (delimited sep k).parse text = some values ↔
      ∃ numerals, numerals.length = k + 1 ∧ text = sep.intercalate numerals ∧
        List.Forall₂ Spells numerals values := by
  constructor
  · intro h
    have hlength := length_of_takes_delimited (parse_eq_some_iff_takes.mp h)
    obtain ⟨n, ns, rfl⟩ := List.exists_cons_of_length_eq_add_one hlength
    have htakes : (delimited sep k).TakesAs (n :: ns) (delimitedOutputs sep n ns) :=
      takesAs_delimited n (Nat.succ.inj hlength)
    rw [htakes.parse_eq_some_iff, exists_takeInTurn_delimitedOutputs_iff hsep] at h
    obtain ⟨numerals, htext, hnumerals⟩ := h
    exact ⟨numerals, hnumerals.length_eq.trans hlength, htext, hnumerals⟩
  · rintro ⟨numerals, hlength, htext, hnumerals⟩
    have hvalues := hnumerals.length_eq.symm.trans hlength
    obtain ⟨n, ns, rfl⟩ := List.exists_cons_of_length_eq_add_one hvalues
    have htakes : (delimited sep k).TakesAs (n :: ns) (delimitedOutputs sep n ns) :=
      takesAs_delimited n (Nat.succ.inj hvalues)
    rw [htakes.parse_eq_some_iff, exists_takeInTurn_delimitedOutputs_iff hsep]
    exact ⟨numerals, htext, hnumerals⟩

/-- **Integers with separators are parsed exactly.** The chain accepts a text exactly if it is made
up of numerals with the separator between any two of them, each with a value that can be read, and
the output is the list of these values. So does every other way to put the parsers in sequence. The
numerals are determined by the text, and numbers are read back from their decimal digits. -/
theorem delimited_accepts_exactly (hsep : IsSeparator sep) (k : ℕ) :
    (∀ text values, (delimited sep k).parse text = some values ↔
      ∃ numerals, numerals.length = k + 1 ∧ text = sep.intercalate numerals ∧
        List.Forall₂ Spells numerals values) ∧
    (∀ {α : Type} (t : ZipTree α), t.leaves = delimitedParsers sep k → ∀ text a,
      t.parser.parse text = some a ↔
        ∃ numerals n ns, ns.length = k ∧ text = sep.intercalate numerals ∧
          List.Forall₂ Spells numerals (n :: ns) ∧ t.components a = delimitedOutputs sep n ns) ∧
    (∀ numerals numerals', (∀ numeral ∈ numerals, IsNumeral numeral) →
      (∀ numeral ∈ numerals', IsNumeral numeral) →
      sep.intercalate numerals = sep.intercalate numerals' → numerals = numerals') ∧
    ∀ ns : List ℕ, ns.length = k + 1 → (∀ n ∈ ns, n ≤ 2 ^ 63 - 1) →
      (delimited sep k).parse (sep.intercalate (ns.map toString)) =
        some (ns.map fun n : ℕ ↦ (n : Int)) := by
  refine ⟨fun text values ↦ parse_delimited_eq_some_iff hsep, ?_, ?_, ?_⟩
  · intro α t ht text a
    exact t.parse_delimited_iff hsep ht
  · intro numerals numerals' h h' heq
    exact hsep.intercalate_injective h h' heq
  · intro ns hlength hle
    refine (parse_delimited_eq_some_iff hsep).mpr ⟨ns.map toString, ?_, rfl, ?_⟩
    · rw [List.length_map, hlength]
    · rw [List.forall₂_map_left_iff, List.forall₂_map_right_iff, List.forall₂_same]
      exact fun n hn ↦ spells_toString (hle n hn)

/-- A separator that starts with a digit does not stop the numeral in front of it. -/
example : (delimited "1" 1).parse ("1".intercalate ["2", "3"]) = none := by decide +kernel

/-- Two integers in a flat sequence, with a separator of two characters between them, the second of
which is a digit. -/
def degreeOneTriple : ZipTree (Int × Unit × Int) :=
  .zip3 (.leaf integer) (.leaf (literal "°1")) (.leaf integer)

theorem delimited_accepts_exactly_degree_one :
    IsSeparator "°1" ∧ (delimited "°1" 1).parse "007°142" = some [7, 42] ∧
      degreeOneTriple.leaves = delimitedParsers "°1" 1 ∧
      degreeOneTriple.parser.parse "007°142" = some (7, (), 42) ∧
      (∀ numerals, (∀ numeral ∈ numerals, IsNumeral numeral) →
        "007°142" = "°1".intercalate numerals → numerals = ["007", "42"]) ∧
      (delimited "°1" 1).parse "9223372036854775807°10" = some [9223372036854775807, 0] := by
  have hsep : IsSeparator "°1" := ⟨'°', rfl, rfl⟩
  have htext : "007°142" = "°1".intercalate ["007", "42"] := by decide +kernel
  have hdigits : "°1".intercalate ([9223372036854775807, 0].map toString) =
      "9223372036854775807°10" := by decide +kernel
  have hseven : Spells "007" 7 := by
    refine ⟨⟨by decide, List.all_eq_true.mp (by decide)⟩, ?_, ?_⟩
    · rw [← digitsValue_eq_placeValue]
      decide
    · rw [← digitsValue_eq_placeValue]
      decide
  have hfortyTwo : Spells "42" 42 := spells_toString (n := 42) (by decide)
  have hspells : List.Forall₂ Spells ["007", "42"] [7, 42] := .cons hseven (.cons hfortyTwo .nil)
  have hnumerals : ∀ numeral ∈ ["007", "42"], IsNumeral numeral :=
    List.forall_mem_cons.mpr
      ⟨hseven.toIsNumeral, List.forall_mem_singleton.mpr hfortyTwo.toIsNumeral⟩
  obtain ⟨haccepts, htree, hunique, hroundtrip⟩ := delimited_accepts_exactly hsep 1
  refine ⟨hsep, (haccepts _ _).mpr ⟨_, rfl, htext, hspells⟩, rfl, ?_, ?_, ?_⟩
  · exact (htree degreeOneTriple rfl _ _).mpr ⟨_, 7, [42], rfl, htext, hspells, rfl⟩
  · intro numerals h heq
    exact hunique _ _ h hnumerals (heq.symm.trans htext)
  · have hlargest := hroundtrip [9223372036854775807, 0] rfl
      (List.forall_mem_cons.mpr ⟨by decide, List.forall_mem_singleton.mpr (Nat.zero_le _)⟩)
    rwa [hdigits] at hlargest

end Parser

end PrefixParsing
