import FieldCompute.Kernel
import FieldCompute.Tree.Storage
/-!
# Ahead-of-time modules

What a program leaves behind for use without it: the signatures and bodies of kernels, and where
each field lies in the storage of its tree.
-/

namespace FieldCompute

structure ModuleKernel where
  name : String
  args : List DType
  rets : List DType
  /-- The body as text, before lowering. -/
  body : String
deriving DecidableEq, Repr

structure ModuleField where
  name : String
  tree : Nat
  dtype : DType
  shape : List Nat
  offset : Nat
deriving DecidableEq, Repr

structure AotModule where
  arch : Arch
  /-- What the target device must be able to do. -/
  caps : List String
  kernels : List ModuleKernel
  fields : List ModuleField
deriving DecidableEq, Repr

namespace AotModule

/-- The file of a module in its directory. -/
def fileName : String := "metadata.json"

/-- An empty module. There are modules for CPU architectures only. -/
def create (backend : String) (arch : Arch) (caps : List String) : Except Error AotModule :=
  if arch.isCpu then pure ⟨arch, caps, [], []⟩
  else throw (.unsupported backend s!"AOT modules for {arch.name}")

def addKernel (m : AotModule) (k : Kernel) : AotModule :=
  { m with kernels := m.kernels ++ [⟨k.name, k.args, k.rets, k.body.text⟩] }

/-- The record of one field of a tree that is known as `name`. The name of the place is looked up in
the tree, under its id. -/
def record (name : String) (t : FieldTree) (f : FieldSlot) : ModuleField :=
  let place := ((t.root.find? f.place.id).bind Node.name?).getD "_"
  ⟨s!"{name}.{place}", t.id, .scalar f.place.scalar, f.place.shape, f.offset⟩

/-- Adds a record for every place of a tree. -/
def addField (m : AotModule) (name : String) (t : FieldTree) : Except Error AotModule :=
  return { m with fields := m.fields ++ (← t.packing).fields.map (record name t) }

end AotModule

end FieldCompute
