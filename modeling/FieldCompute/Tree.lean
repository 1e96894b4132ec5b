import FieldCompute.Misuse
/-!
# Field trees

A tree says how fields are laid out. Dense nodes add axes to everything below them and places are
the scalar fields. A tree starts as a root and grows by one node at a time, each with a fresh id;
everything that is asked of a tree is read off its `outline`, the nodes in depth-first order.
-/

namespace FieldCompute

inductive NodeKind where
  | root
  | dense (extents : List Nat)
  | place (name : String) (scalar : Scalar)
deriving DecidableEq, Repr

/-- A node of a tree. `shape` holds the extents of all axes from the root down to the node. -/
inductive Node where
  | mk (id : NodeId) (kind : NodeKind) (shape : List Nat) (children : List Node)
deriving Repr

/-- A scalar field of a tree. -/
structure Place where
  id : NodeId
  name : String
  scalar : Scalar
  shape : List Nat
deriving DecidableEq, Repr

namespace Node

def id : Node → NodeId | mk i _ _ _ => i

def kind : Node → NodeKind | mk _ k _ _ => k

def shape : Node → List Nat | mk _ _ s _ => s

def children : Node → List Node | mk _ _ _ cs => cs

def isPlace (n : Node) : Bool := n.kind matches .place ..

def name? (n : Node) : Option String :=
  match n.kind with
  | .place name _ => some name
  | _ => none

def scalar? (n : Node) : Option Scalar :=
  match n.kind with
  | .place _ scalar => some scalar
  | _ => none

/-- How many elements the axes of the node address. -/
def elements (n : Node) : Nat := n.shape.foldl (· * ·) 1

def place? (n : Node) : Option Place :=
  match n.kind with
  | .place name scalar => some ⟨n.id, name, scalar, n.shape⟩
  | _ => none

/-! ## Reading a tree -/

mutual

/-- The node and everything below it, depth first, each with its depth. -/
def outline (depth : Nat) : Node → List (Nat × Node)
  | mk i k s cs => (depth, mk i k s cs) :: outlineAll (depth + 1) cs

def outlineAll (depth : Nat) : List Node → List (Nat × Node)
  | [] => []
  | c :: cs => outline depth c ++ outlineAll depth cs

end

/-- All nodes, depth first. -/
def nodes (t : Node) : List Node := (t.outline 0).map (·.2)

def find? (t : Node) (id : NodeId) : Option Node := t.nodes.find? (·.id = id)

/-- All places, depth first. -/
def places (t : Node) : List Place := t.nodes.filterMap place?

private def line (n : Node) : String :=
  n.id.text ++
    match n.kind with
    | .root => " root"
    | .dense extents => " dense " ++ Text.extents extents
    | .place name scalar => " place " ++ name ++ " " ++ scalar.name ++ " " ++ Text.extents n.shape

/-- One line per node, indented by its depth. -/
def dump (t : Node) : String :=
  String.join ((t.outline 0).map fun (depth, n) =>
    String.join (List.replicate depth "  ") ++ n.line ++ "\n")

/-! ## Growing a tree -/

/-- A tree that has only a root. -/
def root (id : NodeId) : Node := mk id .root [] []

mutual

/-- Puts `child` behind the last child of the node `parent`. -/
def attach (parent : NodeId) (child : Node) : Node → Node
  | mk i k s cs =>
    let cs := attachAll parent child cs
    mk i k s (if i = parent then cs ++ [child] else cs)

def attachAll (parent : NodeId) (child : Node) : List Node → List Node
  | [] => []
  | c :: cs => attach parent child c :: attachAll parent child cs

end

/-- A node to be added: a dense node with new axes, or a place. -/
inductive Sprout where
  | dense (extents : List Nat)
  | place (name : String) (dtype : DType)
deriving DecidableEq, Repr

/-- The node that `sprout` becomes under `parent`, which must not be a place. Dense extents are
positive and there is at least one; a place has a scalar type. -/
def sprouted (parent : Node) (sprout : Sprout) (fresh : NodeId) : Except Misuse Node :=
  if parent.isPlace then throw (.childOfPlace parent.id)
  else
    match sprout with
    | .dense extents =>
      if extents.isEmpty || extents.any (· = 0) then throw (.emptyDense extents)
      else pure (mk fresh (.dense extents) (parent.shape ++ extents) [])
    | .place name dtype =>
      match dtype with
      | .scalar s => pure (mk fresh (.place name s) parent.shape [])
      | .void => throw .voidPlace

/-- Adds one node under the node `parent`. A parent that the tree does not have takes no child. -/
def grow (t : Node) (parent : NodeId) (sprout : Sprout) (fresh : NodeId) : Except Misuse Node :=
  match t.find? parent with
  | none => pure t
  | some p => return attach parent (← sprouted p sprout fresh) t

/-- Adds nodes one after the other, under fresh ids from `next` on. Gives the next fresh id as
well: a call that fails takes none. -/
def growAll (t : Node) (next : NodeId) : List (NodeId × Sprout) → Except Misuse Node × NodeId
  | [] => (.ok t, next)
  | (parent, sprout) :: rest =>
    match t.grow parent sprout next with
    | .error e => (.error e, next)
    | .ok t => growAll t (next + 1) rest

end Node

/-- A description of what stands below a node. -/
inductive TreePlan where
  | node (sprout : Node.Sprout) (below : List TreePlan)
deriving Repr

namespace TreePlan

mutual

/-- The calls that build the plan under `parent`, depth first, if its own node gets the id `next`;
and the id after the last one. -/
def calls (parent next : NodeId) : TreePlan → List (NodeId × Node.Sprout) × NodeId
  | node sprout below =>
    let (rest, after) := callsAll next (next + 1) below
    ((parent, sprout) :: rest, after)

def callsAll (parent next : NodeId) : List TreePlan → List (NodeId × Node.Sprout) × NodeId
  | [] => ([], next)
  | p :: ps =>
    let (first, mid) := calls parent next p
    let (rest, after) := callsAll parent mid ps
    (first ++ rest, after)

end

/-- Builds a tree from what stands below its root, with ids from `next` on. Gives the next fresh
id as well. -/
def build (below : List TreePlan) (next : NodeId) : Except Misuse Node × NodeId :=
  (Node.root next).growAll (next + 1) (callsAll next (next + 1) below).1

end TreePlan

end FieldCompute
