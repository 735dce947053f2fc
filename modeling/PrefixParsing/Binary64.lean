/-!
# Binary64 numbers

Double-precision binary numbers, held as their 64 bits: a sign, eleven bits of exponent and
fifty-two of significand. Two numbers are the same exactly when their bits are, which is finer than
the equality of arithmetic: that one, `numEq`, identifies the two zeros and holds of no NaN.

## Rounding

`ofRatio` takes a non-negative fraction to the nearest number, a tie going to the even significand.
It counts in units of the least positive number, `2⁻¹⁰⁷⁴`, so that every finite number is a natural
number of units and rounding is a division of natural numbers. A number of at least `2⁵²` units
loses low bits: with `s` of them dropped, the rounded quotient has fifty-three bits, and the bit
pattern is `s · 2⁵²` plus that quotient, whether or not the rounding carried into a new bit.
Patterns are ordered as the numbers are, so everything that is too large is cut off at infinity by a
minimum.
-/

namespace PrefixParsing

/-- A double-precision number, by its bits. -/
structure Binary64 where
  /-- Sign, exponent and significand, from the highest bit down. -/
  bits : UInt64
deriving DecidableEq

namespace Binary64

/-- The pattern of positive infinity, above that of every finite positive number. -/
def infinityBits : Nat := 0x7FF0000000000000

/-- A pattern that is not a number. -/
def nan : Binary64 := ⟨0x7FF8000000000000⟩

def isNaN (x : Binary64) : Bool := (x.bits &&& 0x7FFFFFFFFFFFFFFF) > 0x7FF0000000000000

def isZero (x : Binary64) : Bool := (x.bits &&& 0x7FFFFFFFFFFFFFFF) == 0

/-- Equality of arithmetic: the two zeros are equal, and a NaN equals nothing. -/
def numEq (x y : Binary64) : Bool :=
  !x.isNaN && !y.isNaN && (x.bits == y.bits || (x.isZero && y.isZero))

/-! ## Rounding a fraction -/

/-- The integer nearest to `n / d`, a tie going to the even neighbour. -/
def roundDiv (n d : Nat) : Nat :=
  let q := n / d
  let r := n % d
  if 2 * r < d then q else if d < 2 * r then q + 1 else q + q % 2

/-- How many low bits a quantity of `units` loses: all but its highest fifty-three. -/
def droppedBits (units : Nat) : Nat := units.log2 - 52

/-- The pattern of the number nearest to `num / den`. -/
def ratioBits (num den : Nat) : Nat :=
  let scaled := num <<< 1074
  let s := droppedBits (scaled / den)
  min ((s <<< 52) + roundDiv scaled (den <<< s)) infinityBits

/-- The number nearest to the fraction `num / den`, a tie going to the even significand. -/
def ofRatio (num den : Nat) : Binary64 := ⟨UInt64.ofNat (ratioBits num den)⟩

/-! ## Arithmetic -/

/-- The same magnitude with the other sign. -/
def neg (x : Binary64) : Binary64 := ⟨x.bits ^^^ 0x8000000000000000⟩

/-- The number nearest to an integer. -/
def ofInt (n : Int) : Binary64 :=
  if n < 0 then (ofRatio n.natAbs 1).neg else ofRatio n.natAbs 1

/-- The machine number with these bits. -/
def toFloat (x : Binary64) : Float := Float.ofBits x.bits

def ofFloat (x : Float) : Binary64 := ⟨x.toBits⟩

def add (x y : Binary64) : Binary64 := ofFloat (x.toFloat + y.toFloat)

def sub (x y : Binary64) : Binary64 := ofFloat (x.toFloat - y.toFloat)

def mul (x y : Binary64) : Binary64 := ofFloat (x.toFloat * y.toFloat)

instance : Neg Binary64 := ⟨neg⟩

instance : Add Binary64 := ⟨add⟩

instance : Sub Binary64 := ⟨sub⟩

instance : Mul Binary64 := ⟨mul⟩

def one : Binary64 := ofRatio 1 1

def two : Binary64 := ofRatio 2 1

/-! ## The bits as text -/

/-- The sixteen hexadecimal digits of the bits. -/
def toHex (x : Binary64) : String :=
  let digits := Nat.toDigits 16 x.bits.toNat
  String.ofList (List.replicate (16 - digits.length) '0' ++ digits)

/-- The digit that a lower-case hexadecimal character stands for. -/
def hexDigit? (c : Char) : Option Nat :=
  if c.isDigit then some (c.toNat - '0'.toNat)
  else if 'a' ≤ c ∧ c ≤ 'f' then some (c.toNat - 'a'.toNat + 10)
  else none

/-- Reads sixteen lower-case hexadecimal digits as bits. -/
def ofHex? (s : String) : Option Binary64 := do
  let digits ← s.toList.mapM hexDigit?
  if digits.length = 16 then
    some ⟨UInt64.ofNat (digits.foldl (fun n d ↦ 16 * n + d) 0)⟩
  else none

end Binary64

end PrefixParsing
