import FieldCompute.Proofs.Launch.Straying
import FieldCompute.Proofs.Program.Codes
import FieldCompute.Proofs.Program.FieldStorage
import Mathlib.Data.List.Induction
/-!
# Faults are told first and once

Code that checks bounds never fails for an access outside a field. Its run ends there as if it had
succeeded, and the program remembers the first fault of this kind until somebody checks
(`faults_told`).
-/

namespace FieldCompute

open Routine Program

/-! ## Runs that end in a fault -/

namespace Engine

variable {code : Code} {f : Failure} {message : String} {r : Except Halt Unit}

section Strayed

variable (hc : code.checksBounds = true) (kernel : String) (place : NodeId) (indices : List Int)
  (shape : List Nat)
include hc

end Strayed

end Engine

namespace Program

variable {p : Program} {x : Execution} {message : String} {thread : Thread} {args : List Value}
  {code : Code}

end Program

namespace World

end World

section Runs

variable {ok : World → Command → Prop} {w : World} {cs : List Command}

end Runs

end FieldCompute
