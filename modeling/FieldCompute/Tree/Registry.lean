import FieldCompute.Tree
/-!
# The registry of trees

Live trees under small ids. A freed id goes on a stack and is the next one to be handed out; only
when the stack is empty does the id space grow.
-/

namespace FieldCompute

/-- A tree under its id. A compile-only tree is never given storage. -/
structure FieldTree where
  id : Nat
  root : Node
  compileOnly : Bool
deriving Repr

/-- The id space is `slots`; `free` is the stack of freed ids, the latest first. -/
structure Registry where
  slots : List (Option FieldTree)
  free : List Nat
deriving Repr

namespace Registry

def empty : Registry := ⟨[], []⟩

/-- Takes an id out of circulation. Until a tree is put there its slot stays empty. -/
def allocateId (r : Registry) : Nat × Registry :=
  match r.free with
  | id :: free => (id, { r with free })
  | [] => (r.slots.length, { r with slots := r.slots ++ [none] })

def add (r : Registry) (root : Node) (compileOnly : Bool) : FieldTree × Registry :=
  let (id, r) := r.allocateId
  let tree := ⟨id, root, compileOnly⟩
  (tree, { r with slots := r.slots.set id (some tree) })

def get? (r : Registry) (id : Nat) : Option FieldTree := (r.slots[id]?).join

/-- Takes out a live tree and frees its id. -/
def remove (r : Registry) (id : Nat) : Option FieldTree × Registry :=
  match r.get? id with
  | none => (none, r)
  | some tree => (some tree, ⟨r.slots.set id none, id :: r.free⟩)

/-- The live trees by rising id. -/
def live (r : Registry) : List FieldTree := r.slots.filterMap id

/-- The live tree that has the node. -/
def treeOf? (r : Registry) (node : NodeId) : Option FieldTree :=
  r.live.find? fun t => (t.root.find? node).isSome

/-- The size of the id space. -/
def capacity (r : Registry) : Nat := r.slots.length

/-- Takes out every tree and forgets all ids. -/
def drain (r : Registry) : List FieldTree × Registry := (r.live, empty)

end Registry

end FieldCompute
