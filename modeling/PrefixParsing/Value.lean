import PrefixParsing.Binary64
import PrefixParsing.Decimal

/-!
# Dynamic values

Parsers that are given as data, rather than written in a program, all produce values of one type.
It holds the usual scalars, tuples, and functions from a fixed library, which can be applied to one
argument at a time.

## Functions are names

A function value is the name of a library function together with the arguments that it already has.
So the type is plain first-order data, and what a name means is the separate evaluation
`Unary.eval`, `Binary.eval`.

## Misuse is a value

A library function that is given something it is not defined on, or whose result is too large,
produces the value `bad` and not a failure: the parser that computed it goes on. Integers are those
of 64 bits with sign, and every operation checks that its result is one of them.
-/

namespace PrefixParsing

/-- The library functions of one argument. -/
inductive Unary where
  | identity | unit | pair | inc | double | negate | toFloat | toText | lower | isUpper
  | fst | snd | swap | length | sum | join
deriving DecidableEq

/-- The library functions of two arguments. -/
inductive Binary where
  | pair | fst | snd | add | sub | mul | concat | replicate | push
deriving DecidableEq

/-- What was not defined on its arguments. -/
inductive Misuse where
  | unary (f : Unary)
  | binary (f : Binary)
  /-- Something that is no function was applied. -/
  | call
deriving DecidableEq

/-- A dynamic value. -/
inductive Value where
  | unit
  | bool (b : Bool)
  | int (n : Int)
  | float (x : Binary64)
  | char (c : Char)
  | str (s : String)
  | tuple (components : List Value)
  | unary (f : Unary)
  | binary (f : Binary)
  /-- A function of two arguments that already has its first. -/
  | withFirst (f : Binary) (first : Value)
  | bad (misuse : Misuse)

namespace Unary

/-- The name of a function in written requests. -/
def name : Unary → String
  | identity => "identity"
  | unit => "unit"
  | pair => "pair"
  | inc => "inc"
  | double => "double"
  | negate => "negate"
  | toFloat => "to_float"
  | toText => "to_string"
  | lower => "lower"
  | isUpper => "is_upper"
  | fst => "fst"
  | snd => "snd"
  | swap => "swap"
  | length => "len"
  | sum => "sum"
  | join => "join"

def all : List Unary :=
  [identity, unit, pair, inc, double, negate, toFloat, toText, lower, isUpper, fst, snd, swap,
    length, sum, join]

def ofName? (name : String) : Option Unary := all.find? (·.name == name)

end Unary

namespace Binary

/-- The name of a function in written requests. -/
def name : Binary → String
  | pair => "pair"
  | fst => "fst"
  | snd => "snd"
  | add => "add"
  | sub => "sub"
  | mul => "mul"
  | concat => "concat"
  | replicate => "repeat"
  | push => "push"

def all : List Binary := [pair, fst, snd, add, sub, mul, concat, replicate, push]

def ofName? (name : String) : Option Binary := all.find? (·.name == name)

end Binary

/-- The name that a misuse is known by. -/
def Misuse.name : Misuse → String
  | unary f => f.name
  | binary f => f.name
  | call => "apply"

/-- The integers of 64 bits with sign. -/
def fitsWord (n : Int) : Bool := -0x8000000000000000 ≤ n && n ≤ 0x7FFFFFFFFFFFFFFF

namespace Value

/-- An integer, if it is one of 64 bits, and otherwise the misuse that led to it. -/
def checked (misuse : Misuse) (n : Int) : Value := if fitsWord n then int n else bad misuse

/-- The sum of the integers among `vs`, if every partial sum has 64 bits. -/
def sum? (vs : List Value) : Option Int :=
  vs.foldlM (fun total v ↦
    match v with
    | int n => if fitsWord (total + n) then some (total + n) else none
    | _ => some total) 0

/-- The text that a value contributes when a tuple is joined. -/
def joinText : Value → String
  | char c => String.singleton c
  | str s => s
  | int n => intText n
  | _ => ""

mutual

/-- Equality of contents. Floats are compared as numbers, and functions and misuses equal nothing,
themselves included. -/
def agrees : Value → Value → Bool
  | unit, unit => true
  | bool a, bool b => a == b
  | int a, int b => a == b
  | float a, float b => a.numEq b
  | char a, char b => a == b
  | str a, str b => a == b
  | tuple a, tuple b => agreeAll a b
  | _, _ => false

/-- Equality of contents, component by component. -/
def agreeAll : List Value → List Value → Bool
  | [], [] => true
  | v :: vs, w :: ws => agrees v w && agreeAll vs ws
  | _, _ => false

end

end Value

/-! ## Evaluation -/

open Value in
/-- What a function of one argument makes of a value. -/
def Unary.eval : Unary → Value → Value
  | .identity, v => v
  | .unit, _ => .unit
  | .pair, v => tuple [v, v]
  | .inc, .int n => checked (.unary .inc) (n + 1)
  | .double, .int n => checked (.unary .double) (2 * n)
  | .double, .float x => .float (x * Binary64.two)
  | .negate, .int n => checked (.unary .negate) (-n)
  | .negate, .float x => .float (-x)
  | .toFloat, .int n => .float (Binary64.ofInt n)
  | .toText, .int n => .str (intText n)
  | .toText, .char c => .str (String.singleton c)
  | .lower, .char c => .char c.toLower
  | .isUpper, .char c => .bool c.isUpper
  | .fst, .tuple (v :: _) => v
  | .snd, .tuple (_ :: v :: _) => v
  | .swap, .tuple vs => .tuple vs.reverse
  | .length, .tuple vs => .int vs.length
  | .sum, .tuple vs => (sum? vs).elim (bad (.unary .sum)) .int
  | .join, .tuple vs => .str (String.join (vs.map joinText))
  | f, _ => bad (.unary f)

open Value in
/-- What a function of two arguments makes of two values. -/
def Binary.eval : Binary → Value → Value → Value
  | .pair, a, b => tuple [a, b]
  | .fst, a, _ => a
  | .snd, _, b => b
  | .add, .int a, .int b => checked (.binary .add) (a + b)
  | .add, .float a, .float b => .float (a + b)
  | .sub, .int a, .int b => checked (.binary .sub) (a - b)
  | .sub, .float a, .float b => .float (a - b)
  | .mul, .int a, .int b => checked (.binary .mul) (a * b)
  | .mul, .float a, .float b => .float (a * b)
  | .concat, .str a, .str b => .str (a ++ b)
  | .replicate, .str s, .int n =>
    if 0 ≤ n ∧ n ≤ 100 then .str (String.join (List.replicate n.toNat s))
    else bad (.binary .replicate)
  | .push, .tuple vs, b => .tuple (vs ++ [b])
  | f, _, _ => bad (.binary f)

/-- The call of one value with another. A function of two arguments waits for its second. -/
def Value.apply : Value → Value → Value
  | .unary f, v => f.eval v
  | .binary f, v => .withFirst f v
  | .withFirst f a, b => f.eval a b
  | _, _ => .bad .call

end PrefixParsing
