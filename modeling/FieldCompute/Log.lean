import FieldCompute.Arch
/-!
# Log events

What a program tells besides its answers: lowered bodies at level `info`, and warnings.
-/

namespace FieldCompute

inductive Level where
  | info | warn
deriving DecidableEq, Repr

structure Event where
  level : Level
  message : String
  fields : List (String × String) := []
deriving DecidableEq, Repr

namespace Event

def archFallback (requested fallback : Arch) : Event :=
  ⟨.warn, "no backend for requested arch; falling back to host",
    [("requested", requested.name), ("fallback", fallback.name)]⟩

def loweredBody (kernel body : String) : Event :=
  ⟨.info, "lowered IR:\n" ++ body, [("kernel.name", kernel)]⟩

def startWithoutStop (kernel : String) : Event :=
  ⟨.warn, "profiler start without stop; dropping measurement", [("kernel.name", kernel)]⟩

def stopWithoutStart : Event := ⟨.warn, "profiler stop without start", []⟩

def teardownStepFailed (error : String) : Event :=
  ⟨.warn, "program teardown step failed", [("error", error)]⟩

def finalizeOnDropFailed (error : String) : Event :=
  ⟨.warn, "program finalize on drop failed", [("error", error)]⟩

end Event

end FieldCompute
