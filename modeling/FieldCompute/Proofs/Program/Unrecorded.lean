import FieldCompute.Proofs.Program.Lenient
/-!
# Operations without faults

Only code that runs ends in a fault, and only a check empties the record of faults. Whatever else a
program does leaves the record as it was: all operations here go along `Unrecorded`.
-/

namespace FieldCompute

open Routine

namespace Engine

/-- The record of faults is as it was. -/
def Unrecorded (e e' : Engine) : Prop := e'.fault = e.fault

instance : IsTrans Engine Unrecorded where
  trans _ _ _ h h' := Eq.trans h' h

end Engine

namespace Program

variable {α : Type} {p p' q : Program}

/-- The record of faults is as it was. -/
def Unrecorded (p p' : Program) : Prop := p'.engine.fault = p.engine.fault

instance : Std.Refl Unrecorded := ⟨fun _ => rfl⟩

instance : IsTrans Program Unrecorded where
  trans _ _ _ h h' := Eq.trans h' h

theorem Unrecorded.of_backend (h : p'.backend = p.backend) : p.Unrecorded p' :=
  congrArg (fun b : Backend => b.engine.fault) h

/-- Asking for an accessor makes a kernel at most. -/
theorem accessor_leaves (a : Accessor) (place : NodeId) (p : Program) :
    ((accessor a place).on p).2.backend = p.backend ∧
      ((accessor a place).on p).2.slots = p.slots ∧
      ((accessor a place).on p).2.overlay = p.overlay := by
  have h := accessor_outcome p a place
  generalize (accessor a place).on p = x at h ⊢
  cases h <;> exact ⟨rfl, rfl, rfl⟩

end Program

end FieldCompute
