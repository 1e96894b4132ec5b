import FieldCompute.Program
/-!
# The end of a program

Every step of the teardown runs, also after one has failed. Each failure is told as a warning, and
the first one is the answer. Arrays and trees are given back in the order in which the tables of the
program list them, which may be any order.
-/

namespace FieldCompute.Program

/-- The steps that give back what the program holds. -/
def teardown (p : Program) : List (Op Unit) :=
  [synchronize] ++
  p.ndarrays.values.map (fun a => onBackend (Backend.releaseNdarray a.allocation)) ++
  p.textures.map (fun t => onBackend (Backend.releaseTexture t.allocation)) ++
  (p.trees.live.filter (!·.compileOnly)).map (fun t => onBackend (Backend.destroy t.id)) ++
  [onBackend Backend.finalize, onEngine (Engine.onPool Pool.terminate)]

/-- The program without what it holds. Kernels and functions that callers may still have stay. -/
def emptied (p : Program) : Program :=
  { p with
    finalized := true, ndarrays := .empty, textures := [], trees := .empty, accessors := .empty
    evaluators := .empty, functionIndex := .empty, listed := [] }

/-- Runs a step; a failure becomes a warning. -/
def attemptStep (step : Op Unit) : Op (Option Failure) := do
  match ← step.attempt with
  | .ok () => return none
  | .error e =>
    tell [.teardownStepFailed e.message]
    return some e

/-- Runs every step, whatever becomes of the others, and fails as the first one that failed. -/
def runAll (steps : List (Op Unit)) : Op Unit := do
  match (← steps.mapM attemptStep).findSome? id with
  | none => pure ()
  | some e => throw e

/-- Gives everything back. A program is finalized once. -/
def finalize : Op Unit := do
  let p ← get
  if p.finalized then throw (.misuse .finalizedTwice)
  set p.emptied
  runAll p.teardown

/-- Finalizes the program if nobody has; a failure is told as a warning. -/
def drop : Op Unit := do
  if !(← get).finalized then
    match ← finalize.attempt with
    | .ok () => pure ()
    | .error e => tell [.finalizeOnDropFailed e.message]

end FieldCompute.Program
