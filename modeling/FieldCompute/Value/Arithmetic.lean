import FieldCompute.Operator
/-!
# Operators on constants

`UnaryOp.onValue?` and `BinaryOp.onValues?` work on operands of one carrier. `eval?` is the meaning
of a statement: the operands are read as their declared types, brought to the type in which the
operator works, and the answer is cast to the declared result type.
-/

namespace FieldCompute

/-- The power `x ^ n` in 64 bits, by squaring along the 32 bits of `n`. -/
def wordPow (x : UInt64) (n : Nat) : UInt64 :=
  (List.range 32).foldr (fun i acc => if n.testBit i then acc * acc * x else acc * acc) 1

namespace UnaryOp

/-- The function on floats, for the operators that know floats alone. -/
def onFloat : UnaryOp → Option (Binary64 → Binary64)
  | sqrt => some .sqrt
  | exp2 => some .exp2
  | log2 => some .log2
  | sin => some .sin
  | cos => some .cos
  | reciprocal => some (Binary64.one.div ·)
  | trunc => some .trunc
  | floor => some .floor
  | neg | not | abs => none

def onValue? (op : UnaryOp) (v : Value) : Option Value :=
  match op, v with
  | neg, .int x => some (.int (-x))
  | neg, .uint x => some (.uint (-x))
  | neg, .float x => some (.float x.neg)
  | not, .int x => some (.int (~~~x))
  | not, .uint x => some (.uint (~~~x))
  | not, .bool x => some (.bool !x)
  | abs, .int x => some (.int (if x < 0 then -x else x))
  | abs, .uint x => some (.uint x)
  | abs, .float x => some (.float x.abs)
  | op, .float x => op.onFloat.map fun f => .float (f x)
  | _, _ => none

/-- The operand is brought to the result type before the operator applies, so a square root
declared `float32` works in single precision. -/
def eval? (op : UnaryOp) (v : Value) (operand ret : DType) : Option Value := do
  let v ← (← v.castTo? operand).castTo? ret
  (← op.onValue? v).castTo? ret

end UnaryOp

namespace BinaryOp

/-- How two constants of one carrier compare: `none` for two carriers, `some none` if one of them
is a NaN. -/
def order? : Value → Value → Option (Option Ordering)
  | .int x, .int y => some (some (compare x.toInt y.toInt))
  | .uint x, .uint y => some (some (compare x.toNat y.toNat))
  | .float x, .float y => some (x.compare? y)
  | .bool x, .bool y => some (some (compare x.toNat y.toNat))
  | _, _ => none

/-- Whether a comparison holds. Beside a NaN only `ne` does. -/
def holds : BinaryOp → Option Ordering → Bool
  | lt, o => o = some .lt
  | le, o => o = some .lt || o = some .eq
  | gt, o => o = some .gt
  | ge, o => o = some .gt || o = some .eq
  | eq, o => o = some .eq
  | ne, o => o ≠ some .eq
  | _, _ => false

def onInt (op : BinaryOp) (x y : Int64) : Option Int64 :=
  match op with
  | add => some (x + y)
  | sub => some (x - y)
  | mul => some (x * y)
  | mod => if y = 0 then none else some (x % y)
  | idiv => if y = 0 then none else some (x / y)
  | max => some (if x < y then y else x)
  | min => some (if y < x then y else x)
  | pow =>
    if 0 ≤ y.toInt ∧ y.toInt < 2 ^ 32 then some (wordPow x.toUInt64 y.toInt.toNat).toInt64 else none
  | and => some (x &&& y)
  | or => some (x ||| y)
  | xor => some (x ^^^ y)
  | shl => if 0 ≤ y.toInt ∧ y.toInt < 64 then some (x <<< y) else none
  | shr => if 0 ≤ y.toInt ∧ y.toInt < 64 then some (x >>> y) else none
  | _ => none

def onUInt (op : BinaryOp) (x y : UInt64) : Option UInt64 :=
  match op with
  | add => some (x + y)
  | sub => some (x - y)
  | mul => some (x * y)
  | mod => if y = 0 then none else some (x % y)
  | idiv => if y = 0 then none else some (x / y)
  | max => some (if x < y then y else x)
  | min => some (if y < x then y else x)
  | pow => if y.toNat < 2 ^ 32 then some (wordPow x y.toNat) else none
  | and => some (x &&& y)
  | or => some (x ||| y)
  | xor => some (x ^^^ y)
  | shl => if y < 64 then some (x <<< y) else none
  | shr => if y < 64 then some (x >>> y) else none
  | _ => none

def onFloat (op : BinaryOp) (x y : Binary64) : Option Binary64 :=
  match op with
  | add => some (x.add y)
  | sub => some (x.sub y)
  | mul => some (x.mul y)
  | mod => some (x.rem y)
  | idiv => some (x.div y).trunc
  | fdiv => some (x.div y)
  | max => some (x.max y)
  | min => some (x.min y)
  | pow => some (x.pow y)
  | _ => none

def onBool (op : BinaryOp) (x y : Bool) : Option Bool :=
  match op with
  | and => some (x && y)
  | or => some (x || y)
  | xor => some (x != y)
  | _ => none

def onValues? (op : BinaryOp) (a b : Value) : Option Value :=
  if op.isComparison then (order? a b).map fun o => .bool (op.holds o)
  else
    match a, b with
    | .int x, .int y => (op.onInt x y).map .int
    | .uint x, .uint y => (op.onUInt x y).map .uint
    | .float x, .float y => (op.onFloat x y).map .float
    | .bool x, .bool y => (op.onBool x y).map .bool
    | _, _ => none

/-- The type in which the operator works: the common type of the operands for a comparison, the
left one's for a shift, else the result type. -/
def workType? (op : BinaryOp) (lhs rhs ret : DType) : Option DType :=
  if op.isComparison then lhs.common? rhs else some (if op.isShift then lhs else ret)

def eval? (op : BinaryOp) (a : Value) (lhs : DType) (b : Value) (rhs ret : DType) :
    Option Value := do
  let work ← op.workType? lhs rhs ret
  let a ← (← a.castTo? lhs).castTo? work
  let b ← (← b.castTo? rhs).castTo? work
  (← op.onValues? a b).castTo? ret

end BinaryOp

end FieldCompute
