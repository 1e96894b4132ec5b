import FieldCompute.Block
/-!
# Functions

A function is a body under a key. What identifies it are the two numbers of the key; the name is
for readers. Its body is set once.
-/

namespace FieldCompute

structure FunctionKey where
  name : String
  id : Nat
  variant : Nat
deriving DecidableEq, Repr

namespace FunctionKey

/-- What tells functions apart. -/
def identity (k : FunctionKey) : Nat × Nat := (k.id, k.variant)

/-- The two keys name one function. -/
def same (a b : FunctionKey) : Bool := a.identity = b.identity

def text (k : FunctionKey) : String := s!"{k.name}_{k.id}_{k.variant}"

end FunctionKey

structure Function where
  key : FunctionKey
  body? : Option Block
deriving Repr

namespace Function

def create (key : FunctionKey) : Function := ⟨key, none⟩

/-- Sets the body, unless there is one; says whether it did. -/
def setBody (f : Function) (b : Block) : Bool × Function :=
  if f.body?.isSome then (false, f) else (true, { f with body? := some b })

end Function

end FieldCompute
