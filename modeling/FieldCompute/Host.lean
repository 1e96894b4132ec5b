import FieldCompute.Program.Fields
import FieldCompute.Program.Resources
import FieldCompute.Program.Teardown
/-!
# Programs side by side

Several programs live beside each other. They share the supply of node ids and the log, and a
kernel that one program made can be compiled or launched through another: it then runs on the
backend that compiled it, but with the settings, the profiler and the result slots of the program
that launches it.
-/

namespace FieldCompute

/-- A kernel, named by the program that made it and its id there. -/
structure KernelRef where
  owner : Nat
  id : Nat
deriving DecidableEq, Repr

structure Host where
  programs : Array Program
  nextNode : NodeId
  log : List Event
  /-- The programs whose backends compiled kernels of other programs. -/
  away : Table KernelRef Nat
  /-- How many programs there are that have not ended. -/
  instances : UInt64
  /-- The most bytes that the host reserves for one allocation. -/
  reservable : Nat

namespace Host

variable {α : Type}

def empty (reservable : Nat := Device.defaultReservable) : Host :=
  ⟨#[], 0, [], .empty, 0, reservable⟩

/-- Runs an operation of a program and collects what it tells. -/
def on (p : Nat) (op : Op α) : Routine Host Failure α :=
  .of fun h =>
    match h.programs[p]? with
    | none => (.error (.misuse (.unknownProgram p)), h)
    | some program =>
      let (r, program) := Routine.on op program
      (r, { h with
        programs := h.programs.setIfInBounds p { program with events := [] }
        log := h.log ++ program.events })

/-- Builds a tree under fresh node ids. -/
def buildTree (below : List TreePlan) : Routine Host Failure Node :=
  .of fun h =>
    let (r, nextNode) := TreePlan.build below h.nextNode
    (r.mapError .misuse, { h with nextNode })

/-- Takes the events told since they were last taken. -/
def takeLog : Routine Host Failure (List Event) := do
  let h ← get
  set { h with log := [] }
  return h.log

/-! ## Creation -/

/-- A program on a backend of the caller's choice. -/
def createWith (thread : Thread) (c : Config) (b : Backend) : Routine Host Failure Nat := do
  let program ← .answer (Program.create thread c b)
  let h ← get
  set { h with programs := h.programs.push program, instances := h.instances + 1 }
  return h.programs.size

/-- A program on the backend that serves the wanted architecture, or else on the host. -/
def create (thread : Thread) (c : Config) : Routine Host Failure Nat := do
  let (arch, events) := Backends.initial.resolve c.arch
  modify fun h => { h with log := h.log ++ events }
  let c := { c with arch }
  let reservable := (← get).reservable
  createWith thread c (← .answer ((Backends.initial.create c reservable).mapError .error))

/-! ## The end -/

/-- There is a program, and it has not ended. -/
def isAlive (h : Host) (p : Nat) : Bool := h.programs[p]?.any (!·.finalized)

/-- Runs an operation that ends program `p`. If it was alive it counts no longer, whatever its
teardown came to. -/
def ending (p : Nat) (op : Op Unit) : Routine Host Failure Unit := do
  let alive := (← get).isAlive p
  let r ← (on p op).attempt
  if alive then modify fun h => { h with instances := h.instances - 1 }
  .answer r

def finalize (p : Nat) : Routine Host Failure Unit := ending p Program.finalize

def drop (p : Nat) : Routine Host Failure Unit := ending p Program.drop

/-! ## Kernels across programs -/

def kernelOf (k : KernelRef) : Routine Host Failure Kernel := on k.owner (Program.kernelOf k.id)

/-- The program on whose backend a compiled kernel runs. -/
def home (h : Host) (k : KernelRef) : Nat := (h.away.find? k).getD k.owner

/-- Keeps the code that program `p` compiled for a kernel, unless the kernel has some. -/
def keepCode (p : Nat) (k : KernelRef) (code : Code) : Routine Host Failure Unit := do
  if !(← kernelOf k).isCompiled then
    on k.owner (Program.keepCode k.id code)
    if p ≠ k.owner then modify fun h => { h with away := h.away.insert k p }

/-- Compiles a kernel through program `p`. -/
def compile (thread : Thread) (p : Nat) (k : KernelRef) : Routine Host Failure Unit := do
  if p = k.owner then on p (Program.compile thread k.id)
  else
    let kernel ← kernelOf k
    let code ← on p do Program.codeUnder (← Program.thisConfig thread) kernel
    keepCode p k code

/-- Runs code on the backend of program `home` with the result slots of program `p`. -/
def runAt (home p : Nat) (code : Code) (args : List Value) : Routine Host Failure Unit := do
  let slots ← on p do return (← get).slots
  let (r, slots) ← on home do
    let program ← get
    let (r, engine, slots) := (Engine.run code args).on (program.engine, slots)
    set (program.withEngine engine)
    return (r, slots)
  on p do modify fun program => { program with slots }
  .answer r

/-- Launches a kernel through program `p`. -/
def launch (thread : Thread) (p : Nat) (k : KernelRef) (args : List Value) :
    Routine Host Failure Unit := do
  if p = k.owner ∧ (← get).home k = p then on p (Program.launch thread k.id args)
  else
    let kernel ← kernelOf k
    let (c, code) ← on p (Program.prepare thread kernel args)
    keepCode p k code
    let home := (← get).home k
    if c.kernelProfiler then
      on p (Program.profilerStart kernel.name)
      let r ← (runAt home p code args).attempt
      on p Program.profilerStop
      .answer r
    else runAt home p code args

/-- Reads one element of a field of program `p`. -/
def readField (thread : Thread) (p : Nat) (place : NodeId) (indices : List Int) :
    Routine Host Failure Value := do
  let kernel ← on p (Program.accessor .reader place)
  launch thread p ⟨p, kernel⟩ (Program.indexArgs indices)
  on p (Program.readResult kernel)

/-- Writes one element of a field of program `p`. -/
def writeField (thread : Thread) (p : Nat) (place : NodeId) (indices : List Int) (v : Value) :
    Routine Host Failure Unit := do
  let kernel ← on p (Program.accessor .writer place)
  launch thread p ⟨p, kernel⟩ (Program.indexArgs indices ++ [v])

end Host

end FieldCompute
