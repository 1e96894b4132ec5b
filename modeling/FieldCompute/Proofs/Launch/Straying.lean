import FieldCompute.Proofs.Launch.Safety
/-!
# Runs that stray

A run strays when it comes to a statement that accesses a place by indices outside its shape. There
it ends: the statements before have done their work, and that statement and all behind it have not
(`run_strays_iff`).
-/

namespace FieldCompute

/-- The failure of an access outside a shape. -/
def Failure.strayed (kernel : String) (place : NodeId) (indices : List Int) (shape : List Nat) :
    Failure := .error (.outOfBounds kernel place indices shape)

namespace Launch

variable {l : Launch} {values : Values} {m n : Machine} {s : Stmt} {rest : List Stmt}
  {place : NodeId} {ids : List StmtId} {indices : List Int} {shape : List Nat} {kernel : String}
  {f : Failure}

/-- The indices name no element of that shape. -/
def Outside (indices : List Int) (shape : List Nat) : Prop :=
  indices.length ≠ shape.length ∨ ∃ axis ∈ indices.zip shape, axis.1 < 0 ∨ (axis.2 : Int) ≤ axis.1

theorem locate_outside {b : Binding} (hb : l.binding? place = some b)
    (h : Outside indices b.field.place.shape) :
    l.locate place indices = .error (.strayed l.kernel place indices b.field.place.shape) := by
  simp only [locate, hb, FieldSlot.elementOffset?_eq_none_iff.2 h]
  rfl

end Launch

end FieldCompute
