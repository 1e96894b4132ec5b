import FieldCompute.Program.Kernels
/-!
# Fields of a program

Trees come and go; the places of a live tree are read and written one element at a time, through
accessor kernels that are made once per place and forgotten with the tree.
-/

namespace FieldCompute.Program

/-- Registers a tree. Unless it is compile-only the backend gives it storage; if that fails the
tree is not registered after all. -/
def addTree (root : Node) (compileOnly : Bool) : Op Nat := do
  let p ← get
  let (tree, trees) := p.trees.add root compileOnly
  set { p with trees }
  if !compileOnly then
    match ← (onBackend (Backend.materialize tree)).attempt with
    | .ok () => pure ()
    | .error e =>
      modify fun p => { p with trees := (p.trees.remove tree.id).2 }
      throw e
  return tree.id

/-- Forgets a live tree with its accessors and takes its storage back. -/
def destroyTree (id : Nat) : Op Unit := do
  let p ← get
  match p.trees.remove id with
  | (none, _) => throw (.misuse (.treeNotLive id))
  | (some tree, trees) =>
    let forget (known : Table (Accessor × NodeId) Nat) (place : Place) :=
      (known.erase (.reader, place.id)).erase (.writer, place.id)
    set { p with trees, accessors := tree.root.places.foldl forget p.accessors }
    if !tree.compileOnly then onBackend (Backend.destroy id)

/-- The root of a live tree. -/
def root (p : Program) (id : Nat) : Except Misuse Node :=
  match p.trees.get? id with
  | some tree => pure tree.root
  | none => throw (.treeNotLive id)

/-- Cells that a node allocated on demand. A dense layout never does. -/
def dynamicCells (_ : Program) (_ : NodeId) : Nat := 0

/-- The layout of every live tree. -/
def layoutText (p : Program) : String :=
  String.join (p.trees.live.map fun t => s!"tree {t.id}\n" ++ t.root.dump)

/-! ## Accessors -/

/-- The place of a live tree under that id. -/
def place? (p : Program) (id : NodeId) : Option Place :=
  ((p.trees.treeOf? id).bind (·.root.find? id)).bind Node.place?

/-- The accessor kernel of a place, made when it is first asked for. -/
def accessor (a : Accessor) (id : NodeId) : Op Nat := do
  let p ← get
  match p.accessors.find? (a, id) with
  | some kernel => pure kernel
  | none =>
    match p.place? id with
    | none => throw (.error (.notAField id))
    | some place =>
      let kernel ← addKernel (a.kernel place)
      modify fun p => { p with accessors := p.accessors.insert (a, id) kernel }
      return kernel

/-- The arguments that stand for an index tuple. -/
def indexArgs (indices : List Int) : List Value := indices.map fun i => .int (Int64.ofInt i)

/-- What a reader kernel returned. -/
def readResult (kernel : Nat) : Op Value := do
  let k ← kernelOf kernel
  resultOf k (← get).slots (k.rets.headD .void)

/-- Reads one element. -/
def readField (thread : Thread) (id : NodeId) (indices : List Int) : Op Value := do
  let kernel ← accessor .reader id
  launch thread kernel (indexArgs indices)
  readResult kernel

/-- Writes one element. -/
def writeField (thread : Thread) (id : NodeId) (indices : List Int) (v : Value) : Op Unit := do
  let kernel ← accessor .writer id
  launch thread kernel (indexArgs indices ++ [v])

end FieldCompute.Program
