/-!
# JSON trees

A JSON text as a tree. Objects keep their members in order and may hold a key twice. What is
grammatical but not usable as data (a number that is no size, a text with half a surrogate pair) is
kept as `none`, so that a reader can pass over it.
-/

namespace FieldCompute

inductive JsonTree where
  | null
  | bool (b : Bool)
  /-- The number, if it is written as a natural number and is a size. -/
  | number (n : Option Nat)
  /-- The text, if its escapes make up characters. -/
  | string (s : Option String)
  | array (items : List JsonTree)
  | object (members : List (Option String × JsonTree))
deriving Repr, Inhabited

namespace JsonTree

def text? : JsonTree → Option String
  | string s => s
  | _ => none

def size? : JsonTree → Option Nat
  | number n => n
  | _ => none

/-- The items of an array, each read by `read`. -/
def list? {α : Type} (read : JsonTree → Option α) : JsonTree → Option (List α)
  | array items => items.mapM read
  | _ => none

/-- The value of a key that stands in the object exactly once. -/
def member? (members : List (String × JsonTree)) (key : String) : Option JsonTree :=
  match members.filter (·.1 = key) with
  | [(_, v)] => some v
  | _ => none

/-- The fields of a record, in the order of `keys`: an array of that many items, or an object that
has every key once. Other keys do not matter. -/
def record? (keys : List String) : JsonTree → Option (List JsonTree)
  | array items => if items.length = keys.length then some items else none
  | object members => do
    let members ← members.mapM fun (k, v) => k.map (·, v)
    keys.mapM (member? members)
  | _ => none

/-- A variant of a choice: its name alone, or an object whose only key is the name. -/
def variant? : JsonTree → Option (String × JsonTree)
  | string (some name) => some (name, null)
  | object [(some name, v)] => some (name, v)
  | _ => none

/-- One of `all`, by its name. Its content is `null`. -/
def choice? {α : Type} (all : List α) (name : α → String) (t : JsonTree) : Option α :=
  match t.variant? with
  | some (s, null) => all.find? (name · = s)
  | _ => none

end JsonTree

end FieldCompute
