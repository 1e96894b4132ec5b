import FieldCompute.Tree
/-!
# Packing

The storage of a tree is one run of bytes in which the places stand one after the other in
depth-first order, each at a multiple of its element size and each in row-major order. A packing
exists only if it fits the range of sizes.
-/

namespace FieldCompute

/-- A place with the offset of its first element. -/
structure FieldSlot where
  place : Place
  offset : Nat
deriving DecidableEq, Repr

/-- The number of an element in row-major order, behind `before` full rows. There is none if the
indices are too few, too many or out of their extents. -/
def rowMajor? (before : Nat) : List Nat → List Int → Option Nat
  | [], [] => some before
  | extent :: shape, index :: indices =>
    if 0 ≤ index ∧ index < extent then rowMajor? (before * extent + index.toNat) shape indices
    else none
  | _, _ => none

/-- The offset of an element in the tree's storage. -/
def FieldSlot.elementOffset? (f : FieldSlot) (indices : List Int) : Option Nat :=
  (rowMajor? 0 f.place.shape indices).map fun n => f.offset + n * f.place.scalar.bytes

structure Packing where
  fields : List FieldSlot
  size : Nat
deriving DecidableEq, Repr

namespace Packing

/-- Packs the places from `offset` on. -/
def ofPlaces? (offset : Nat) : List Place → Option Packing
  | [] => some ⟨[], offset⟩
  | p :: rest => do
    let start ← Size.alignUp? offset p.scalar.bytes
    let finish ← Size.add? start (← Size.product? p.scalar.bytes p.shape)
    let packed ← ofPlaces? finish rest
    return { packed with fields := ⟨p, start⟩ :: packed.fields }

/-- The packing of a tree, if it fits. -/
def ofTree? (t : Node) : Option Packing := ofPlaces? 0 t.places

def field? (p : Packing) (id : NodeId) : Option FieldSlot := p.fields.find? (·.place.id = id)

end Packing

end FieldCompute
