import FieldCompute.Value
/-!
# Scalar operators

The operators and what they give on constants. Integers wrap, floats follow IEEE 754, and an
operator that has no answer gives `none`: mixed carriers, a carrier that the operator does not
know, an integer division by zero, a shift by a negative amount or by 64 and more.
-/

namespace FieldCompute

inductive UnaryOp where
  | neg | not | abs | sqrt | exp2 | log2 | sin | cos | reciprocal | trunc | floor
deriving DecidableEq, Repr, Inhabited

inductive BinaryOp where
  | add | sub | mul | mod | max | min | pow | idiv | fdiv
  | lt | le | gt | ge | eq | ne
  | and | or | xor | shl | shr
deriving DecidableEq, Repr, Inhabited

/-- An operator of one or two operands. -/
inductive ScalarOp where
  | unary (op : UnaryOp)
  | binary (op : BinaryOp)
deriving DecidableEq, Repr, Inhabited

namespace UnaryOp

def all : List UnaryOp := [neg, not, abs, sqrt, exp2, log2, sin, cos, reciprocal, trunc, floor]

def name : UnaryOp → String
  | neg => "neg"
  | not => "not"
  | abs => "abs"
  | sqrt => "sqrt"
  | exp2 => "exp2"
  | log2 => "log2"
  | sin => "sin"
  | cos => "cos"
  | reciprocal => "reciprocal"
  | trunc => "trunc"
  | floor => "floor"

end UnaryOp

namespace BinaryOp

def all : List BinaryOp :=
  [add, sub, mul, mod, max, min, pow, idiv, fdiv, lt, le, gt, ge, eq, ne, and, or, xor, shl, shr]

def name : BinaryOp → String
  | add => "add"
  | sub => "sub"
  | mul => "mul"
  | mod => "mod"
  | max => "max"
  | min => "min"
  | pow => "pow"
  | idiv => "idiv"
  | fdiv => "fdiv"
  | lt => "lt"
  | le => "le"
  | gt => "gt"
  | ge => "ge"
  | eq => "eq"
  | ne => "ne"
  | and => "and"
  | or => "or"
  | xor => "xor"
  | shl => "shl"
  | shr => "shr"

def isComparison : BinaryOp → Bool
  | lt | le | gt | ge | eq | ne => true
  | _ => false

def isShift : BinaryOp → Bool
  | shl | shr => true
  | _ => false

def isBitwise : BinaryOp → Bool
  | and | or | xor | shl | shr => true
  | _ => false

end BinaryOp

namespace ScalarOp

def name : ScalarOp → String
  | unary op => op.name
  | binary op => op.name

def isBinary : ScalarOp → Bool
  | unary _ => false
  | binary _ => true

end ScalarOp

end FieldCompute
