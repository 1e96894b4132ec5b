import FieldCompute.AotModule
import FieldCompute.JsonTree.Reader
import FieldCompute.JsonTree.Writer
/-!
# Module files

A module is kept as a JSON text. Records are objects with their fields in a fixed order, choices
are named by their tags. Whether a file can be written is for the outside to say; what would be
written is decided here.
-/

namespace FieldCompute

/-! ## Files -/

structure Destination where
  path : String
  writable : Bool
deriving DecidableEq, Repr

/-- What the file holds after the text was written to it. -/
def Destination.write (d : Destination) (text : String) : Except Error String :=
  if d.writable then pure text else throw (.unwritable d.path)

namespace AotModule

open JsonTree (string number array object)

/-! ## Writing -/

def ofText (s : String) : JsonTree := string (some s)

def ofSize (n : Nat) : JsonTree := number (some n)

def ofDType : DType → JsonTree
  | .scalar s => object [(some "Scalar", ofText s.tag)]
  | .void => ofText "Void"

/-- An object with these keys. -/
def ofRecord (members : List (String × JsonTree)) : JsonTree :=
  object (members.map fun (k, v) => (some k, v))

def ofKernel (k : ModuleKernel) : JsonTree :=
  ofRecord [("name", ofText k.name), ("args", array (k.args.map ofDType)),
    ("rets", array (k.rets.map ofDType)), ("ir", ofText k.body)]

def ofField (f : ModuleField) : JsonTree :=
  ofRecord [("name", ofText f.name), ("tree_id", ofSize f.tree), ("dtype", ofDType f.dtype),
    ("shape", array (f.shape.map ofSize)), ("offset", ofSize f.offset)]

def toTree (m : AotModule) : JsonTree :=
  ofRecord [("arch", ofText m.arch.tag), ("caps", array (m.caps.map ofText)),
    ("kernels", array (m.kernels.map ofKernel)), ("fields", array (m.fields.map ofField))]

/-- The text of a module. -/
def text (m : AotModule) : String := m.toTree.write 0

/-- Writes the module into a directory. -/
def dump (m : AotModule) (directory : Destination) : Except Error String :=
  { directory with path := directory.path ++ "/" ++ fileName }.write m.text

/-! ## Reading -/

def dtype? (t : JsonTree) : Option DType :=
  match t.variant? with
  | some ("Void", .null) => some .void
  | some ("Scalar", s) => .scalar <$> s.choice? Scalar.all Scalar.tag
  | _ => none

def kernel? (t : JsonTree) : Option ModuleKernel := do
  match ← t.record? ["name", "args", "rets", "ir"] with
  | [name, args, rets, body] =>
    return ⟨← name.text?, ← args.list? dtype?, ← rets.list? dtype?, ← body.text?⟩
  | _ => none

def field? (t : JsonTree) : Option ModuleField := do
  match ← t.record? ["name", "tree_id", "dtype", "shape", "offset"] with
  | [name, tree, dtype, shape, offset] =>
    return ⟨← name.text?, ← tree.size?, ← dtype? dtype, ← shape.list? JsonTree.size?,
      ← offset.size?⟩
  | _ => none

def ofTree? (t : JsonTree) : Option AotModule := do
  match ← t.record? ["arch", "caps", "kernels", "fields"] with
  | [arch, caps, kernels, fields] =>
    return ⟨← arch.choice? Arch.all Arch.tag, ← caps.list? JsonTree.text?,
      ← kernels.list? kernel?, ← fields.list? field?⟩
  | _ => none

/-- The module that a text describes. -/
def parse? (text : String) : Option AotModule := (JsonTree.parse? text).bind ofTree?

end AotModule

end FieldCompute
