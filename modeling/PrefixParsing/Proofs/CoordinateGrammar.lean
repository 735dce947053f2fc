import PrefixParsing.Grammar.Coordinates
import PrefixParsing.Proofs.FractionRuns
import PrefixParsing.Proofs.PiecesInPlace
import PrefixParsing.Proofs.Signs

/-!
# The grammar of coordinates

A coordinate is a latitude and a longitude, each of them a number with a compass letter, as in
`52.5° N 13.4° E`. The parser goes through the text from left to right and reads a number as far as
there are digits and points. It is shown here that it misses no coordinate by this, and that it
accepts no other text. A written coordinate is described as two of `WrittenAngle` with a space
between them, without an order in which its parts are read. The output is the two numbers, those
with a letter for south or west with the other sign, and no digit of them is lost by that.

## Why the parts are determined

A number ends at its degree sign, which is neither a digit nor a point, and all the other parts have
their length. So a text is the coordinate of at most one pair of angles.
-/

namespace PrefixParsing

open Text

/-! ## Fractions as whole texts -/

/-- A number as it can be written: digits and at most one point, and not the point alone. -/
structure IsFraction (number : String) : Prop where
  accepted : ∀ x ∈ number.toList, x.isDigit = true ∨ x = '.'
  has_digit : ∃ x ∈ number.toList, x.isDigit = true
  points_le : number.toList.count '.' ≤ 1

theorem Reading.isNaN_of_float {text lexeme : List Char} {x : Binary64}
    (h : float text = .found lexeme x) : x.isNaN = false := by
  simp only [float] at h
  split at h
  · cases h
  · split at h
    · cases h
      exact Binary64.isNaN_ofRatio _ _
    · cases h

namespace Parser

theorem exists_parse_float_iff {number : String} :
    (∃ x, float.parse number = some x) ↔ IsFraction number := by
  simp only [parse_eq_some_iff_takes]
  constructor
  · rintro ⟨x, hx⟩
    obtain ⟨hrun, -⟩ := takes_float_iff.mp hx
    by_contra hnot
    have hmissing := Reading.float_eq_missing hrun fun ⟨hdigit, hpoints⟩ ↦
      hnot ⟨fun y hy ↦ Reading.isFractionChar_iff.mp (hrun.accepted y hy), hdigit, hpoints⟩
    rw [takes_float_iff_reading.mp hx] at hmissing
    cases hmissing
  · intro h
    have hrun : IsLeadingRun Reading.isFractionChar number.toList [] :=
      ⟨fun y hy ↦ Reading.isFractionChar_iff.mpr (h.accepted y hy), fun y hy ↦ by cases hy⟩
    obtain ⟨x, hread⟩ := Reading.float_eq_found hrun h.has_digit h.points_le
    exact ⟨x, takes_float_iff_reading.mpr hread⟩

theorem isNaN_of_parse_float {number : String} {x : Binary64} (h : float.parse number = some x) :
    x.isNaN = false :=
  Reading.isNaN_of_float (takes_float_iff_reading.mp (parse_eq_some_iff_takes.mp h))

end Parser

namespace Grammar

open PrefixParsing.Parser

/-! ## Letters -/

/-- The directions of the compass that a coordinate can have. -/
inductive Compass where
  | north
  | east
  | south
  | west
deriving DecidableEq

namespace Compass

def letter : Compass → Char
  | north => 'N'
  | east => 'E'
  | south => 'S'
  | west => 'W'

/-- North and east are positive, south and west are negative. -/
def sign : Compass → Binary64
  | north => Binary64.one
  | east => Binary64.one
  | south => -Binary64.one
  | west => -Binary64.one

/-- A number in a direction: to the south and to the west it has the other sign. -/
def signed (d : Compass) (x : Binary64) : Binary64 :=
  match d with
  | north | east => x
  | south | west => ⟨x.bits ^^^ 0x8000000000000000⟩

theorem mul_sign (d : Compass) {x : Binary64} (hx : x.isNaN = false) : x * d.sign = d.signed x := by
  cases d with
  | north | east => exact Binary64.mul_one_eq hx
  | south | west => exact Binary64.mul_neg_one_eq hx

theorem sign_eq (d : Compass) :
    d.sign = if d = north ∨ d = east then ⟨0x3FF0000000000000⟩ else ⟨0xBFF0000000000000⟩ := by
  cases d <;> decide +kernel

theorem letter_injective : Function.Injective letter := by
  intro d d' h
  cases d <;> cases d' <;> first | rfl | exact absurd h (by decide)

end Compass

section

variable {piece behind : List Char} {s : Binary64}

/-- The letters of `positive` go before those of `negative`. -/
theorem takes_sign_iff {positive negative : List Char} :
    (sign positive negative).Takes s piece behind ↔ ∃ letter, piece = [letter] ∧
      (letter ∈ positive ∧ s = Binary64.one ∨
        letter ∉ positive ∧ letter ∈ negative ∧ s = -Binary64.one) := by
  rw [sign, takes_flatMap_iff]
  constructor
  · rintro ⟨letter, first, second, rfl, hletter, hvalue⟩
    obtain rfl := takes_anyChar_iff.mp hletter
    split_ifs at hvalue with hpositive hnegative
    · obtain ⟨rfl, rfl⟩ := takes_always_iff.mp hvalue
      exact ⟨letter, rfl, .inl ⟨hpositive, rfl⟩⟩
    · obtain ⟨rfl, rfl⟩ := takes_always_iff.mp hvalue
      exact ⟨letter, rfl, .inr ⟨hpositive, hnegative, rfl⟩⟩
    · exact absurd hvalue not_takes_never
  · rintro ⟨letter, rfl, hvalue⟩
    refine ⟨letter, [letter], [], rfl, takes_anyChar_iff.mpr rfl, ?_⟩
    obtain ⟨hpositive, rfl⟩ | ⟨hpositive, hnegative, rfl⟩ := hvalue
    · rw [if_pos hpositive]
      exact takes_always_iff.mpr ⟨rfl, rfl⟩
    · rw [if_neg hpositive, if_pos hnegative]
      exact takes_always_iff.mpr ⟨rfl, rfl⟩

theorem takes_cardinal_iff :
    cardinal.Takes s piece behind ↔ ∃ d : Compass, piece = [d.letter] ∧ s = d.sign := by
  rw [cardinal, takes_sign_iff]
  simp only [List.mem_cons, List.not_mem_nil, or_false]
  constructor
  · rintro ⟨letter, rfl, ⟨rfl | rfl, rfl⟩ | ⟨-, rfl | rfl, rfl⟩⟩
    · exact ⟨.north, rfl, rfl⟩
    · exact ⟨.east, rfl, rfl⟩
    · exact ⟨.south, rfl, rfl⟩
    · exact ⟨.west, rfl, rfl⟩
  · rintro ⟨d, rfl, rfl⟩
    refine ⟨d.letter, rfl, ?_⟩
    cases d with
    | north => exact .inl ⟨.inl rfl, rfl⟩
    | east => exact .inl ⟨.inr rfl, rfl⟩
    | south => exact .inr ⟨by decide, .inl rfl, rfl⟩
    | west => exact .inr ⟨by decide, .inr rfl, rfl⟩

end

/-! ## Angles -/

/-- A number of degrees and a direction, as they are written. -/
@[ext]
structure WrittenAngle where
  number : String
  direction : Compass
  isFraction : IsFraction number

namespace WrittenAngle

/-- The number, the degree sign and a space, and the letter. -/
def text (angle : WrittenAngle) : String :=
  angle.number ++ "° " ++ String.singleton angle.direction.letter

/-- The parts that the parsers take. -/
def pieces (angle : WrittenAngle) : List (List Char) :=
  [angle.number.toList, "° ".toList, [angle.direction.letter]]

theorem toList_text (angle : WrittenAngle) : angle.text.toList = angle.pieces.flatten := by
  rw [text, String.toList_append, String.toList_append, String.toList_singleton, pieces,
    List.flatten_cons, List.flatten_cons, List.flatten_singleton, List.append_assoc]

/-- The degree sign stops the number. -/
theorem isLeadingRun_number (angle : WrittenAngle) (rest : List Char) :
    IsLeadingRun Reading.isFractionChar angle.number.toList ("° ".toList ++ rest) := by
  refine ⟨fun x hx ↦ Reading.isFractionChar_iff.mpr (angle.isFraction.accepted x hx), ?_⟩
  intro x hx
  obtain rfl : '°' = x := Option.some.inj hx
  rfl

/-- An angle can be told from a text that starts with it. -/
theorem eq_of_append_eq {angle angle' : WrittenAngle} {rest rest' : List Char}
    (h : angle.pieces.flatten ++ rest = angle'.pieces.flatten ++ rest') :
    angle = angle' ∧ rest = rest' := by
  simp only [pieces, List.flatten_cons, List.flatten_nil, List.append_nil, List.append_assoc] at h
  obtain ⟨hnumber, hbehind⟩ :=
    (angle.isLeadingRun_number _).unique (angle'.isLeadingRun_number _) h
  obtain ⟨hletter, hrest⟩ := List.cons.inj (List.append_cancel_left hbehind)
  exact ⟨WrittenAngle.ext (String.toList_injective hnumber) (Compass.letter_injective hletter),
    hrest⟩

end WrittenAngle

/-- The parsers of an angle with their outputs. -/
def angleOutputs (x s : Binary64) : List Component :=
  [⟨⟨float⟩, x⟩, ⟨⟨degrees⟩, ()⟩, ⟨⟨cardinal⟩, s⟩]

theorem takeInTurn_angleOutputs_iff {x s : Binary64} {pieces : List (List Char)}
    {rest : List Char} :
    TakeInTurn (angleOutputs x s) pieces rest ↔ ∃ angle : WrittenAngle, pieces = angle.pieces ∧
      float.parse angle.number = some x ∧ s = angle.direction.sign := by
  simp only [angleOutputs, degrees, takeInTurn_cons_iff, takeInTurn_nil_iff, takes_float_iff,
    takes_literal_iff, takes_cardinal_iff]
  constructor
  · rintro ⟨number, _, rfl, ⟨-, hvalue⟩, _, _, rfl, rfl, _, _, rfl, ⟨d, rfl, rfl⟩, rfl⟩
    refine ⟨⟨String.ofList number, d, exists_parse_float_iff.mp ⟨x, hvalue⟩⟩, ?_, hvalue, rfl⟩
    simp only [WrittenAngle.pieces, String.toList_ofList]
  · rintro ⟨angle, rfl, hvalue, rfl⟩
    refine ⟨_, _, rfl, ⟨?_, ?_⟩, _, _, rfl, rfl, _, _, rfl, ⟨_, rfl, rfl⟩, rfl⟩
    · exact angle.isLeadingRun_number _
    · rwa [String.ofList_toList]

/-! ## Coordinates -/

/-- The parsers of a coordinate in sequence. -/
def coordinateParts :
    ZipTree (Binary64 × Unit × Binary64 × Unit × Binary64 × Unit × Binary64) :=
  .zip7 (.leaf float) (.leaf degrees) (.leaf cardinal) (.leaf (literal " ")) (.leaf float)
    (.leaf degrees) (.leaf cardinal)

theorem parse_coordinate_eq_some_iff {text : String} {output : Binary64 × Binary64} :
    coordinate.parse text = some output ↔ ∃ (latitude longitude : WrittenAngle) (x y : Binary64),
      text = latitude.text ++ " " ++ longitude.text ∧ float.parse latitude.number = some x ∧
        float.parse longitude.number = some y ∧
        output = (x * latitude.direction.sign, y * longitude.direction.sign) := by
  have hparts (x s y t : Binary64) :
      coordinateParts.parser.Takes (x, (), s, (), y, (), t) text.toList [] ↔ ∃ pieces,
        text.toList = pieces.flatten ∧
          TakeInTurn (angleOutputs x s ++ (⟨⟨literal " "⟩, ()⟩ :: angleOutputs y t)) pieces [] :=
    coordinateParts.takesAs_components (x, (), s, (), y, (), t) text.toList []
  have hcoordinate : coordinate.parse text = some output ↔
      ∃ x s y t, output = (x * s, y * t) ∧
        coordinateParts.parser.Takes (x, (), s, (), y, (), t) text.toList [] := by
    refine parse_eq_some_iff_takes.trans (takes_map_iff.trans ?_)
    constructor
    · rintro ⟨⟨x, _, s, _, y, _, t⟩, houtput, h⟩
      exact ⟨x, s, y, t, houtput, h⟩
    · rintro ⟨x, s, y, t, houtput, h⟩
      exact ⟨(x, (), s, (), y, (), t), houtput, h⟩
  simp only [hcoordinate, hparts, takeInTurn_append_iff, takeInTurn_cons_iff,
    takeInTurn_angleOutputs_iff, takes_literal_iff]
  constructor
  · rintro ⟨x, s, y, t, rfl, _, htext, _, _, rfl, ⟨latitude, rfl, hx, rfl⟩, _, _, rfl, rfl,
      ⟨longitude, rfl, hy, rfl⟩⟩
    refine ⟨latitude, longitude, x, y, String.toList_injective ?_, hx, hy, rfl⟩
    rw [htext, List.flatten_append, List.flatten_cons, String.toList_append, String.toList_append,
      latitude.toList_text, longitude.toList_text, List.append_assoc]
  · rintro ⟨latitude, longitude, x, y, rfl, hx, hy, rfl⟩
    refine ⟨x, _, y, _, rfl, _, ?_, _, _, rfl, ⟨latitude, rfl, hx, rfl⟩, _, _, rfl, rfl,
      ⟨longitude, rfl, hy, rfl⟩⟩
    rw [List.flatten_append, List.flatten_cons, String.toList_append, String.toList_append,
      latitude.toList_text, longitude.toList_text, List.append_assoc]

/-- **Coordinates are parsed exactly.** A text is accepted exactly if it is two angles with a space
between them. There is only one such pair for a text. The output is the number of each angle, as it
is read alone, times the sign of its letter, which is `1` or `-1`. The product is exact: to the
south and to the west the sign bit of the number is changed, and nothing else. -/
theorem coordinate_accepts_exactly :
    (∀ text, (∃ output, coordinate.parse text = some output) ↔
      ∃ latitude longitude : WrittenAngle, text = latitude.text ++ " " ++ longitude.text) ∧
    (∀ latitude longitude latitude' longitude' : WrittenAngle,
      latitude.text ++ " " ++ longitude.text = latitude'.text ++ " " ++ longitude'.text →
        latitude = latitude' ∧ longitude = longitude') ∧
    (∀ d : Compass, d.sign =
      if d = .north ∨ d = .east then ⟨0x3FF0000000000000⟩ else ⟨0xBFF0000000000000⟩) ∧
    ∀ latitude longitude : WrittenAngle, ∃ x y, float.parse latitude.number = some x ∧
      float.parse longitude.number = some y ∧
      coordinate.parse (latitude.text ++ " " ++ longitude.text) =
        some (x * latitude.direction.sign, y * longitude.direction.sign) ∧
      x * latitude.direction.sign = latitude.direction.signed x ∧
      y * longitude.direction.sign = longitude.direction.signed y := by
  have haccepted (latitude longitude : WrittenAngle) :
      ∃ x y, float.parse latitude.number = some x ∧ float.parse longitude.number = some y ∧
        coordinate.parse (latitude.text ++ " " ++ longitude.text) =
          some (x * latitude.direction.sign, y * longitude.direction.sign) := by
    obtain ⟨x, hx⟩ := exists_parse_float_iff.mpr latitude.isFraction
    obtain ⟨y, hy⟩ := exists_parse_float_iff.mpr longitude.isFraction
    exact ⟨x, y, hx, hy,
      parse_coordinate_eq_some_iff.mpr ⟨latitude, longitude, x, y, rfl, hx, hy, rfl⟩⟩
  refine ⟨?_, ?_, Compass.sign_eq, ?_⟩
  · intro text
    constructor
    · rintro ⟨output, h⟩
      obtain ⟨latitude, longitude, -, -, htext, -⟩ := parse_coordinate_eq_some_iff.mp h
      exact ⟨latitude, longitude, htext⟩
    · rintro ⟨latitude, longitude, rfl⟩
      obtain ⟨x, y, -, -, h⟩ := haccepted latitude longitude
      exact ⟨_, h⟩
  · intro latitude longitude latitude' longitude' h
    have hpieces := congrArg String.toList h
    simp only [String.toList_append, WrittenAngle.toList_text, List.append_assoc] at hpieces
    obtain ⟨rfl, hbehind⟩ := WrittenAngle.eq_of_append_eq hpieces
    have hlongitude : longitude.pieces.flatten ++ [] = longitude'.pieces.flatten ++ [] := by
      rw [List.append_cancel_left hbehind]
    exact ⟨rfl, (WrittenAngle.eq_of_append_eq hlongitude).1⟩
  · intro latitude longitude
    obtain ⟨x, y, hx, hy, h⟩ := haccepted latitude longitude
    exact ⟨x, y, hx, hy, h, Compass.mul_sign _ (isNaN_of_parse_float hx),
      Compass.mul_sign _ (isNaN_of_parse_float hy)⟩

/-- With a point inside the first number and in front of the second one: `40.5` and `-0.5`. -/
theorem coordinate_accepts_exactly_points :
    coordinate.parse "40.5° N .5° W" = some (⟨0x4044400000000000⟩, ⟨0xBFE0000000000000⟩) ∧
      ∀ latitude longitude : WrittenAngle,
        "40.5° N .5° W" = latitude.text ++ " " ++ longitude.text →
          (latitude.number = "40.5" ∧ latitude.direction = .north) ∧
            longitude.number = ".5" ∧ longitude.direction = .west := by
  have hfirst : float.parse "40.5" = some ⟨0x4044400000000000⟩ := by decide +kernel
  have hsecond : float.parse ".5" = some ⟨0x3FE0000000000000⟩ := by decide +kernel
  have htext : "40.5° N .5° W" = "40.5" ++ "° " ++ String.singleton 'N' ++ " " ++
      (".5" ++ "° " ++ String.singleton 'W') := by decide +kernel
  let north : WrittenAngle := ⟨"40.5", .north, exists_parse_float_iff.mp ⟨_, hfirst⟩⟩
  let west : WrittenAngle := ⟨".5", .west, exists_parse_float_iff.mp ⟨_, hsecond⟩⟩
  obtain ⟨-, hunique, -, houtput⟩ := coordinate_accepts_exactly
  constructor
  · obtain ⟨x, y, hx, hy, h, hlatitude, hlongitude⟩ := houtput north west
    obtain rfl := Option.some.inj (hx.symm.trans hfirst)
    obtain rfl := Option.some.inj (hy.symm.trans hsecond)
    rw [hlatitude, hlongitude] at h
    rw [htext]
    exact h
  · intro latitude longitude h
    obtain ⟨rfl, rfl⟩ := hunique _ _ north west (h.symm.trans htext)
    exact ⟨⟨rfl, rfl⟩, rfl, rfl⟩

end Grammar

end PrefixParsing
