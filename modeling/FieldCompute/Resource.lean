import FieldCompute.Device
/-!
# Arrays and textures

Device memory that a program owns besides its fields.
-/

namespace FieldCompute

/-- Where the channels of an element lie: innermost or outermost. -/
inductive ArrayLayout where
  | aos | soa
deriving DecidableEq, Repr, Inhabited

def ArrayLayout.name : ArrayLayout → String
  | .aos => "Aos"
  | .soa => "Soa"

structure Ndarray where
  id : Nat
  dtype : DType
  shape : List Nat
  layout : ArrayLayout
  allocation : Allocation
deriving DecidableEq, Repr

namespace Ndarray

/-- The handle as callers see it. -/
def text (id : Nat) : String := s!"#{id}"

def elements (a : Ndarray) : Nat := a.shape.foldl (· * ·) 1

def bytes (a : Ndarray) : Nat := a.elements * a.dtype.bytes

end Ndarray

structure Texture where
  image : Image
  allocation : Allocation
deriving DecidableEq, Repr

end FieldCompute
