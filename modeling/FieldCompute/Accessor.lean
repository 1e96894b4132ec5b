import FieldCompute.Kernel
import FieldCompute.Tree
/-!
# Accessor kernels

Every place has two kernels of its own: one reads an element and returns it, one writes an element.
Both take one `int32` index per axis; the writer takes the value last.
-/

namespace FieldCompute

inductive Accessor where
  | reader | writer
deriving DecidableEq, Repr

namespace Accessor

def kernelName (a : Accessor) (place : NodeId) : String :=
  match a with
  | reader => s!"snode_reader_{place}"
  | writer => s!"snode_writer_{place}"

/-- The construction of the kernel. The index arguments are the first statements. -/
def steps (a : Accessor) (p : Place) : List DraftStep :=
  let axes := p.shape.length
  let dtype := DType.scalar p.scalar
  List.replicate axes (.arg (.scalar .int32)) ++
    match a with
    | reader => [.emit (.load p.id (List.range axes) dtype), .ret axes]
    | writer => [.arg dtype, .emit (.store p.id (List.range axes) axes)]

def kernel (a : Accessor) (p : Place) (id : Nat) : Kernel :=
  .create id (a.kernelName p.id) (.ofSteps (a.steps p)) .off

end Accessor

end FieldCompute
