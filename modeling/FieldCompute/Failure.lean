import FieldCompute.Block.Verify
import FieldCompute.Device
import FieldCompute.Misuse
/-!
# Failures

Why an operation did not do its work. An error is an answer that a caller handles; a misuse is a
call that should not have been made.
-/

namespace FieldCompute

inductive Error where
  | device (cause : DeviceError)
  | invalidIr (kernel : String) (defect : Block.Defect)
  | compilation (kernel reason : String)
  | unsupportedArch (arch : Arch)
  | unsupported (backend operation : String)
  | argumentCount (kernel : String) (expected actual : Nat)
  /-- A statement, or what else is described, gives no value. -/
  | evaluation (kernel statement : String)
  | outOfBounds (kernel : String) (place : NodeId) (indices : List Int) (shape : List Nat)
  | notMaterialized (node : NodeId)
  | notAField (node : NodeId)
  | sizeOverflow (what : String)
  | ndarrayNotFound (ndarray : Nat)
  | runtime (message : String)
  | unwritable (path : String)
deriving DecidableEq, Repr

def Error.message : Error → String
  | device e => s!"device error: {e.message}"
  | invalidIr k d => s!"invalid IR in kernel '{k}': {d.message}"
  | compilation k reason => s!"compilation of kernel '{k}' failed: {reason}"
  | unsupportedArch a => s!"no backend available for {a.name}"
  | unsupported b op => s!"{b} backend does not support {op}"
  | argumentCount k e a => s!"kernel '{k}' expects {e} arguments, got {a}"
  | evaluation k s => s!"kernel '{k}' cannot evaluate {s}"
  | outOfBounds k p is shape =>
    s!"kernel '{k}' accessed {p.text} at {Text.bracketed (is.map toString)} outside shape " ++
      Text.extents shape
  | notMaterialized n => s!"{n.text} is not materialized"
  | notAField n => s!"{n.text} is not a field of a live SNode tree"
  | sizeOverflow what => s!"size of {what} overflows usize"
  | ndarrayNotFound n => s!"ndarray #{n} not found"
  | runtime m => s!"runtime error: {m}"
  | unwritable path => s!"failed to write {path}"

inductive Failure where
  | error (e : Error)
  | misuse (m : Misuse)
deriving DecidableEq, Repr

namespace Failure

def message : Failure → String
  | error e => e.message
  | misuse m => m.message

/-- A device error as a failure. -/
def device (e : DeviceError) : Failure := .error (.device e)

end Failure

end FieldCompute
