import FieldCompute.Size
/-!
# Scalar types

The element types of fields, arguments and results. `DType` adds `void`, the type of a statement
that gives no value.
-/

namespace FieldCompute

inductive Scalar where
  | bool | int8 | uint8 | int16 | uint16 | int32 | uint32 | int64 | uint64 | float32 | float64
deriving DecidableEq, Repr, Inhabited

namespace Scalar

/-- Every scalar type, by rising position. -/
def all : List Scalar :=
  [bool, int8, uint8, int16, uint16, int32, uint32, int64, uint64, float32, float64]

def name : Scalar → String
  | bool => "bool"
  | int8 => "int8"
  | uint8 => "uint8"
  | int16 => "int16"
  | uint16 => "uint16"
  | int32 => "int32"
  | uint32 => "uint32"
  | int64 => "int64"
  | uint64 => "uint64"
  | float32 => "float32"
  | float64 => "float64"

/-- The name that stands for the type in module files and in the text of a kernel's signature. -/
def tag : Scalar → String
  | bool => "Bool"
  | int8 => "Int8"
  | uint8 => "UInt8"
  | int16 => "Int16"
  | uint16 => "UInt16"
  | int32 => "Int32"
  | uint32 => "UInt32"
  | int64 => "Int64"
  | uint64 => "UInt64"
  | float32 => "Float32"
  | float64 => "Float64"

def bytes : Scalar → Nat
  | bool | int8 | uint8 => 1
  | int16 | uint16 => 2
  | int32 | uint32 | float32 => 4
  | int64 | uint64 | float64 => 8

/-- The width in bits. -/
def width (s : Scalar) : Nat := 8 * s.bytes

def isBool (s : Scalar) : Bool := s = bool

def isSigned : Scalar → Bool
  | int8 | int16 | int32 | int64 => true
  | _ => false

def isUnsigned : Scalar → Bool
  | uint8 | uint16 | uint32 | uint64 => true
  | _ => false

def isInt (s : Scalar) : Bool := s.isSigned || s.isUnsigned

def isFloat : Scalar → Bool
  | float32 | float64 => true
  | _ => false

/-- The number of the integer type's range that is congruent to `i`. -/
def wrap (s : Scalar) (i : Int) : Int :=
  if s.isSigned then i.bmod (2 ^ s.width) else i % 2 ^ s.width

/-- The least and the greatest number of a signed type. -/
def minInt (s : Scalar) : Int := -2 ^ (s.width - 1)

def maxInt (s : Scalar) : Int := 2 ^ (s.width - 1) - 1

/-- The number of a signed type's range nearest to `i`. -/
def clamp (s : Scalar) (i : Int) : Int := max s.minInt (min s.maxInt i)

/-- Floats rank above integers, wider types above narrower ones, unsigned above signed ones of the
same width. -/
def rank (s : Scalar) : Nat :=
  (if s.isFloat then 32 else 0) + 2 * s.bytes + (if s.isUnsigned then 1 else 0)

end Scalar

inductive DType where
  | scalar (s : Scalar)
  | void
deriving DecidableEq, Repr, Inhabited

namespace DType

def scalar? : DType → Option Scalar
  | scalar s => some s
  | void => none

def name : DType → String
  | scalar s => s.name
  | void => "void"

/-- The type as it stands in the text of a kernel's signature. -/
def tag : DType → String
  | scalar s => s!"Scalar({s.tag})"
  | void => "Void"

def bytes : DType → Nat
  | scalar s => s.bytes
  | void => 0

def isVoid (d : DType) : Bool := d = void

/-- The type `d` is a scalar for which `p` holds. -/
def scalarIs (p : Scalar → Bool) (d : DType) : Bool := d.scalar?.any p

/-- The size of a dense array of `d`. -/
def arrayBytes? (d : DType) (shape : List Nat) : Option Nat := Size.product? d.bytes shape

/-- The type of higher rank, the left one of two equals; none if one of them is void. -/
def common? (l r : DType) : Option DType := do
  let a ← l.scalar?
  let b ← r.scalar?
  return if b.rank ≤ a.rank then l else r

end DType

end FieldCompute
