import FieldCompute.Size
/-!
# Binary floating-point words

Binary interchange formats, read as integers. A finite word stands for a whole number of its
format's smallest steps, `scaled / 2 ^ step`, and `nearest` is the one rounding rule from which
widening, narrowing and every conversion below are made: to the nearest word, ties to the even
one, to infinity beyond the largest.
-/

namespace FieldCompute

/-- A format: how many bits hold the fraction and how many the biased exponent. -/
structure BinaryFormat where
  fractionBits : Nat
  exponentBits : Nat

namespace BinaryFormat

def single : BinaryFormat := ⟨23, 8⟩

def double : BinaryFormat := ⟨52, 11⟩

variable (f : BinaryFormat)

/-- Every finite word is a multiple of `2 ^ -step`. -/
def step : Nat := 2 ^ (f.exponentBits - 1) - 2 + f.fractionBits

/-- The magnitude word of infinity; larger ones are no numbers. -/
def infinity : Nat := (2 ^ f.exponentBits - 1) * 2 ^ f.fractionBits

/-- The word that every operation without a number for an answer gives. -/
def quiet : Nat := f.infinity + 2 ^ (f.fractionBits - 1)

/-- The weight of the sign bit. -/
def signWeight : Nat := 2 ^ (f.fractionBits + f.exponentBits)

/-- The value of a magnitude word, in steps. -/
def scaled (magnitude : Nat) : Nat :=
  let e := magnitude / 2 ^ f.fractionBits
  let fraction := magnitude % 2 ^ f.fractionBits
  if e = 0 then fraction else (2 ^ f.fractionBits + fraction) * 2 ^ (e - 1)

/-- The multiple of `d` nearest to `a`, as a factor; of two equally near ones the even one. -/
def nearestFactor (a d : Nat) : Nat :=
  let q := a / d
  let r := a % d
  if 2 * r < d then q else if d < 2 * r then q + 1 else q + q % 2

/-- The exponent of the steps between the words around `a / d`: the largest `e` with
`2 ^ (fractionBits + e) ≤ a / d`, or zero. -/
def binade (a d : Nat) : Nat :=
  let guess := a.log2 - d.log2 - f.fractionBits
  if d * 2 ^ (f.fractionBits + guess) ≤ a then guess else guess - 1

/-- The magnitude word nearest to `a / d` steps. -/
def nearest (a d : Nat) : Nat :=
  let e := f.binade a d
  min f.infinity (nearestFactor a (d * 2 ^ e) + e * 2 ^ f.fractionBits)

end BinaryFormat

/-- A number in the 64-bit format, as its word. -/
structure Binary64 where
  bits : UInt64
deriving DecidableEq, Repr, Inhabited

namespace Binary64

open BinaryFormat

def isNegative (x : Binary64) : Bool := 2 ^ 63 ≤ x.bits.toNat

def magnitude (x : Binary64) : Nat := x.bits.toNat % 2 ^ 63

def isNaN (x : Binary64) : Bool := double.infinity < x.magnitude

def isInfinite (x : Binary64) : Bool := x.magnitude = double.infinity

def isFinite (x : Binary64) : Bool := x.magnitude < double.infinity

def ofParts (negative : Bool) (magnitude : Nat) : Binary64 :=
  ⟨UInt64.ofNat ((if negative then double.signWeight else 0) + magnitude)⟩

def zero : Binary64 := ⟨0⟩

def one : Binary64 := ⟨0x3ff0000000000000⟩

def nan : Binary64 := ofParts false double.quiet

/-- The value in steps of `2 ^ -1074`, with its sign. Both infinities lie beyond every finite
number. -/
def steps (x : Binary64) : Int :=
  if x.isNegative then -(double.scaled x.magnitude : Int) else double.scaled x.magnitude

/-- How two numbers compare. A NaN compares with nothing, and the two zeros are equal. -/
def compare? (x y : Binary64) : Option Ordering :=
  if x.isNaN || y.isNaN then none else some (compare x.steps y.steps)

/-! ## Arithmetic -/

def toFloat (x : Binary64) : Float := Float.ofBits x.bits

def ofFloat (x : Float) : Binary64 := ⟨x.toBits⟩

def add (x y : Binary64) : Binary64 := ofFloat (x.toFloat + y.toFloat)

def sub (x y : Binary64) : Binary64 := ofFloat (x.toFloat - y.toFloat)

def mul (x y : Binary64) : Binary64 := ofFloat (x.toFloat * y.toFloat)

def div (x y : Binary64) : Binary64 := ofFloat (x.toFloat / y.toFloat)

def pow (x y : Binary64) : Binary64 := ofFloat (x.toFloat.pow y.toFloat)

def sqrt (x : Binary64) : Binary64 := ofFloat x.toFloat.sqrt

def exp2 (x : Binary64) : Binary64 := ofFloat x.toFloat.exp2

def log2 (x : Binary64) : Binary64 := ofFloat x.toFloat.log2

def sin (x : Binary64) : Binary64 := ofFloat x.toFloat.sin

def cos (x : Binary64) : Binary64 := ofFloat x.toFloat.cos

/-- The other sign, also of a zero. -/
def neg (x : Binary64) : Binary64 := ofParts (!x.isNegative) x.magnitude

def abs (x : Binary64) : Binary64 := ofParts false x.magnitude

/-- The larger number; a NaN gives way to the other operand. -/
def max (x y : Binary64) : Binary64 :=
  if x.isNaN then y else if y.isNaN then x else if x.steps < y.steps then y else x

/-- The smaller number; a NaN gives way to the other operand. -/
def min (x y : Binary64) : Binary64 :=
  if x.isNaN then y else if y.isNaN then x else if y.steps < x.steps then y else x

/-- The remainder of the division that truncates. It has the sign of `x`. -/
def rem (x y : Binary64) : Binary64 :=
  if x.isNaN || y.isNaN || x.isInfinite || y.magnitude = 0 then nan
  else if y.isInfinite then x
  else ofParts x.isNegative
    (double.nearest (double.scaled x.magnitude % double.scaled y.magnitude) 1)

/-! ## Whole numbers -/

/-- The whole part, without the sign. -/
def whole (x : Binary64) : Nat := double.scaled x.magnitude / 2 ^ double.step

/-- Toward zero. -/
def trunc (x : Binary64) : Binary64 :=
  if x.isFinite then ofParts x.isNegative (double.nearest (x.whole * 2 ^ double.step) 1) else x

/-- Toward negative infinity. -/
def floor (x : Binary64) : Binary64 :=
  if x.isFinite then
    let up := if x.isNegative && double.scaled x.magnitude % 2 ^ double.step ≠ 0 then 1 else 0
    ofParts x.isNegative (double.nearest ((x.whole + up) * 2 ^ double.step) 1)
  else x

/-- The whole part with its sign; zero for a NaN. An infinity gives a number beyond every word. -/
def toInt (x : Binary64) : Int :=
  if x.isNaN then 0 else if x.isNegative then -(x.whole : Int) else x.whole

def ofInt (i : Int) : Binary64 :=
  ofParts (i < 0) (double.nearest (i.natAbs * 2 ^ double.step) 1)

/-! ## The 32-bit format -/

/-- The 32-bit word nearest to `x`. -/
def narrow (x : Binary64) : Nat :=
  (if x.isNegative then single.signWeight else 0) +
    if x.isNaN then single.quiet
    else if x.isInfinite then single.infinity
    else single.nearest (double.scaled x.magnitude) (2 ^ (double.step - single.step))

/-- The number that a 32-bit word stands for. -/
def widen (word : Nat) : Binary64 :=
  let magnitude := word % single.signWeight
  ofParts (single.signWeight ≤ word) <|
    if single.infinity < magnitude then double.quiet
    else if magnitude = single.infinity then double.infinity
    else double.nearest (single.scaled magnitude * 2 ^ (double.step - single.step)) 1

/-- The nearest number that the 32-bit format holds. -/
def toSingle (x : Binary64) : Binary64 := widen x.narrow

/-- The number of the 32-bit format nearest to `i`, rounded once. -/
def ofIntSingle (i : Int) : Binary64 :=
  widen ((if i < 0 then single.signWeight else 0) + single.nearest (i.natAbs * 2 ^ single.step) 1)

end Binary64

end FieldCompute
