import FieldCompute.Scalar
import FieldCompute.Number.Decimal
/-!
# Constants

The values that flow through kernels. A value is kept in one of four carriers, whatever the width
of its type: `cast` brings it to a type, and `encode?`, `decode?` turn it into the 64-bit word that
memory and result slots hold, and back.
-/

namespace FieldCompute

inductive Value where
  | int (v : Int64)
  | uint (v : UInt64)
  | float (v : Binary64)
  | bool (v : Bool)
deriving DecidableEq, Repr, Inhabited

namespace Value

/-- Equality as programs see it: the same carrier and equal numbers, so a NaN differs from itself
and the two zeros are equal. -/
instance : BEq Value where
  beq
    | int a, int b => a = b
    | uint a, uint b => a = b
    | float a, float b => a.compare? b = some .eq
    | bool a, bool b => a = b
    | _, _ => false

/-- The type of the carrier. -/
def dtype : Value → DType
  | int _ => .scalar .int64
  | uint _ => .scalar .uint64
  | float _ => .scalar .float64
  | bool _ => .scalar .bool

/-- The zero of a type. -/
def zero (s : Scalar) : Value :=
  if s.isBool then bool false
  else if s.isSigned then int 0
  else if s.isUnsigned then uint 0
  else float .zero

/-! ## Casts -/

/-- The integer of type `s` that is congruent to `i`. -/
def ofInt (s : Scalar) (i : Int) : Value :=
  if s.isSigned then int (Int64.ofInt (s.wrap i)) else uint (UInt64.ofNat (s.wrap i).toNat)

/-- The whole number `i` as a value of type `s`. A float is rounded to the format of `s` at once. -/
def ofWhole (s : Scalar) (i : Int) : Value :=
  match s with
  | .bool => bool (i ≠ 0)
  | .float32 => float (.ofIntSingle i)
  | .float64 => float (.ofInt i)
  | _ => ofInt s i

/-- A float as a value of type `s`. Toward a signed type the whole part is clamped to the range,
toward an unsigned one it is clamped to 64 signed bits and then reduced. -/
def ofBinary (s : Scalar) (x : Binary64) : Value :=
  match s with
  | .bool => bool (x.isNaN || x.magnitude ≠ 0)
  | .float32 => float x.toSingle
  | .float64 => float x
  | _ => ofInt s ((if s.isSigned then s else .int64).clamp x.toInt)

/-- The value as type `s`. -/
def cast (v : Value) (s : Scalar) : Value :=
  match v with
  | bool b => ofWhole s (if b then 1 else 0)
  | int i => ofWhole s i.toInt
  | uint u => ofWhole s u.toNat
  | float x => ofBinary s x

/-- The value as type `d`; there is none of type void. -/
def castTo? (v : Value) (d : DType) : Option Value := d.scalar?.map v.cast

/-! ## Words -/

/-- The word of a value of type `s`: integers in the low bytes of their type, floats as their bits
in the format of the type. -/
def word (s : Scalar) : Value → UInt64
  | bool b => if b then 1 else 0
  | int i => UInt64.ofNat (i.toInt % 2 ^ s.width).toNat
  | uint u => u
  | float x => if s = .float32 then UInt64.ofNat x.narrow else x.bits

/-- The word that stands for the value as type `d`. -/
def encode? (v : Value) (d : DType) : Option UInt64 := d.scalar?.map fun s => (v.cast s).word s

/-- The value of type `s` that a word stands for. Only the low bytes of the type count. -/
def ofWord (s : Scalar) (w : UInt64) : Value :=
  match s with
  | .bool => bool (w.toNat % 2 = 1)
  | .float32 => float (.widen (w.toNat % 2 ^ 32))
  | .float64 => float ⟨w⟩
  | _ => ofInt s w.toNat

/-- The value of type `d` that a word stands for; none of type void. -/
def decode? (w : UInt64) (d : DType) : Option Value := d.scalar?.map (ofWord · w)

/-! ## Text -/

/-- The text of a constant: unsigned numbers end in `u`. -/
def text : Value → String
  | int i => toString i.toInt
  | uint u => toString u.toNat ++ "u"
  | float x => x.text
  | bool b => if b then "true" else "false"

end Value

end FieldCompute
