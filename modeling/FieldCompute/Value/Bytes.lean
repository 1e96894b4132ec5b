import FieldCompute.Value
/-!
# Values in memory

Memory holds the low bytes of a value's word, the lowest byte first. The two conversions are
inverse to each other on numbers that fit.
-/

namespace FieldCompute

/-- The lowest `count` bytes of a number, the lowest first. -/
def lowBytes (n : Nat) : Nat → List UInt8
  | 0 => []
  | count + 1 => (n % 256).toUInt8 :: lowBytes (n / 256) count

/-- The number that bytes stand for, the lowest first. -/
def ofLowBytes : List UInt8 → Nat
  | [] => 0
  | b :: bs => b.toNat + 256 * ofLowBytes bs

@[simp] theorem length_lowBytes (n count : Nat) : (lowBytes n count).length = count := by
  induction count generalizing n with
  | zero => rfl
  | succ count ih => simp [lowBytes, ih]

theorem ofLowBytes_lowBytes (n count : Nat) : ofLowBytes (lowBytes n count) = n % 256 ^ count := by
  induction count generalizing n with
  | zero => simp [lowBytes, ofLowBytes, Nat.mod_one]
  | succ count ih =>
    have h : (n % 256).toUInt8.toNat = n % 256 := by simp
    rw [lowBytes, ofLowBytes, ih, h, Nat.pow_succ, Nat.mul_comm (256 ^ count), Nat.mod_mul]

namespace Value

/-- The bytes of a value as an element of type `s`. -/
def toBytes (s : Scalar) (v : Value) : List UInt8 := lowBytes ((v.cast s).word s).toNat s.bytes

/-- The element of type `s` that the bytes stand for. -/
def ofBytes (s : Scalar) (bytes : List UInt8) : Value := ofWord s (UInt64.ofNat (ofLowBytes bytes))

@[simp] theorem length_toBytes (s : Scalar) (v : Value) : (v.toBytes s).length = s.bytes := by
  simp [toBytes]

end Value

end FieldCompute
