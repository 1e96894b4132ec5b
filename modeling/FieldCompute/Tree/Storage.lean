import FieldCompute.Device
import FieldCompute.Failure
import FieldCompute.Tree.Packing
import FieldCompute.Tree.Registry
/-!
# The storage of trees

A tree that is not compile-only owns one allocation, in which its places lie as its packing says.
-/

namespace FieldCompute

/-- The packing of a registered tree. -/
def FieldTree.packing (t : FieldTree) : Except Error Packing :=
  match Packing.ofTree? t.root with
  | some p => pure p
  | none => throw (.sizeOverflow s!"snode tree {t.id}")

/-- An allocation with the packing of the tree that lives in it. -/
structure Storage where
  allocation : Allocation
  packing : Packing
deriving DecidableEq, Repr

/-- A field with the allocation that holds it. -/
structure Binding where
  allocation : Allocation
  field : FieldSlot
deriving DecidableEq, Repr

def Storage.binding? (s : Storage) (place : NodeId) : Option Binding :=
  (s.packing.field? place).map (⟨s.allocation, ·⟩)

end FieldCompute
