import FieldCompute.Misuse
/-!
# Result slots

Kernels hand their results to the host through a fixed number of 64-bit words.
-/

namespace FieldCompute

structure ResultSlots where
  words : Vector UInt64 32
deriving Repr

namespace ResultSlots

/-- The number of slots. -/
def count : Nat := 32

def empty : ResultSlots := ⟨.replicate 32 0⟩

def load (s : ResultSlots) (slot : Nat) : Except Misuse UInt64 :=
  match s.words[slot]? with
  | some w => pure w
  | none => throw (.slotOutOfRange slot)

def store (s : ResultSlots) (slot : Nat) (w : UInt64) : Except Misuse ResultSlots :=
  if h : slot < 32 then pure ⟨s.words.set slot w h⟩ else throw (.slotOutOfRange slot)

end ResultSlots

/-- The types as which the host reads a slot. -/
inductive HostType where
  | i8 | i16 | i32 | i64 | u8 | u16 | u32 | u64 | bool | f32 | f64
deriving DecidableEq, Repr

/-- What a word is to the host: integers keep their low bits, floats are read as bits. -/
def HostType.read (w : UInt64) : HostType → Value
  | i8 => .ofInt .int8 w.toNat
  | i16 => .ofInt .int16 w.toNat
  | i32 => .ofInt .int32 w.toNat
  | i64 => .ofInt .int64 w.toNat
  | u8 => .ofInt .uint8 w.toNat
  | u16 => .ofInt .uint16 w.toNat
  | u32 => .ofInt .uint32 w.toNat
  | u64 => .uint w
  | bool => .bool (w.toNat % 2 = 1)
  | f32 => .float (.widen (w.toNat % 2 ^ 32))
  | f64 => .float ⟨w⟩

end FieldCompute
