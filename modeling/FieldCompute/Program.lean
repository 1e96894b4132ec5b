import FieldCompute.Accessor
import FieldCompute.Backend
import FieldCompute.Evaluator
import FieldCompute.Function
import FieldCompute.Profiler
import FieldCompute.Resource
/-!
# Programs

A program owns all that is needed to compile and run kernels for one architecture: settings per
thread, trees, kernels and functions, arrays and textures, a profiler, and the backend. Operations
are routines on the program: they answer or fail, and what they did before they failed stays done.
-/

namespace FieldCompute

structure Program where
  arch : Arch
  overlay : Overlay
  backend : Backend
  profiler : Profiler
  slots : ResultSlots
  trees : Registry
  /-- The accessor kernels made so far for places of live trees. -/
  accessors : Table (Accessor × NodeId) Nat
  /-- Every kernel that was made, by id: a caller may hold on to any of them. -/
  kernels : Table Nat Kernel
  /-- The kernels that the program lists, in the order in which they were made. -/
  listed : List Nat
  /-- Every function that was made. -/
  functions : List Function
  /-- Where the functions of the known keys stand among all functions. -/
  functionIndex : Table (Nat × Nat) Nat
  /-- The evaluators made so far, by kernel id. -/
  evaluators : Table EvaluatorKey Nat
  nextEvaluator : UInt32
  ndarrays : Table Nat Ndarray
  nextNdarray : Nat
  textures : List Texture
  nextKernel : Nat
  nextGlobal : Nat
  finalized : Bool
  /-- What the program told since its events were last collected. -/
  events : List Event
deriving Repr

/-- Operations on a program. -/
abbrev Op (α : Type) := Routine Program Failure α

namespace Program

variable {α : Type}

/-- A program on a backend, made by `thread`. -/
def create (thread : Thread) (c : Config) (b : Backend) : Except Failure Program := do
  if b.computeDevice?.isNone then throw (.error (.unsupported b.name "compute devices"))
  let (started, backend) := Backend.start.on b
  started
  return {
    arch := c.arch, overlay := .create thread c, backend, profiler := .empty, slots := .empty
    trees := .empty, accessors := .empty, kernels := .empty, listed := [], functions := []
    functionIndex := .empty, evaluators := .empty, nextEvaluator := 0, ndarrays := .empty
    nextNdarray := 0, textures := [], nextKernel := 0, nextGlobal := 0, finalized := false
    events := [] }

/-- The program on one line. -/
def describe (p : Program) : String :=
  let parts :=
    [s!"arch: {p.arch.tag}", s!"backend: {Text.quoted p.backend.name}",
      s!"snode_trees: {p.trees.live.length}", s!"kernels: {p.listed.length}",
      s!"ndarrays: {p.ndarrays.size}", s!"textures: {p.textures.length}",
      s!"finalized: {p.finalized}"]
  "Program \x7b " ++ Text.commaList parts ++ " \x7d"

/-! ## Parts -/

def onBackend (a : Routine Backend Failure α) : Op α :=
  a.zoom Program.backend fun backend p => { p with backend }

def onEngine (a : Routine Engine Failure α) : Op α := onBackend (Backend.onEngine a)

def engine (p : Program) : Engine := p.backend.engine

def withEngine (p : Program) (engine : Engine) : Program :=
  { p with backend := { p.backend with engine } }

def device (p : Program) : Device := p.engine.device

/-- The program after somebody else has worked on its device. -/
def withDevice (p : Program) (d : Device) : Program := p.withEngine (p.engine.withDevice d)

def pool (p : Program) : Pool := p.engine.pool

/-- Tells events. -/
def tell (events : List Event) : Op Unit := modify fun p => { p with events := p.events ++ events }

/-- An answer that must not be an error. -/
def expect (r : Except Error α) : Op α := .answer (r.mapError .error)

/-- An answer that must not be a misuse. -/
def allowed (r : Except Misuse α) : Op α := .answer (r.mapError .misuse)

/-! ## Settings -/

/-- The settings of a thread; the first time they are copied from the main thread's. -/
def thisConfig (thread : Thread) : Op Config := do
  let p ← get
  let (c, overlay) := p.overlay.thisThread thread
  set { p with overlay }
  return c

def updateConfig (thread : Thread) (change : Config → Config) : Op Unit :=
  modify fun p => { p with overlay := (p.overlay.update thread change).2 }

/-! ## Results and profile -/

def fetch (slot : Nat) : Op UInt64 := do allowed ((← get).slots.load slot)

def storeResult (slot : Nat) (w : UInt64) : Op Unit := do
  let p ← get
  let slots ← allowed (p.slots.store slot w)
  set { p with slots }

def profilerStart (name : String) : Op Unit := do
  let p ← get
  let (profiler, events) := p.profiler.start name
  set { p with profiler }
  tell events

/-- Ends the measurement under way. How long it took is not recorded. -/
def profilerStop : Op Unit := do
  let p ← get
  let (profiler, events) := p.profiler.stop 0
  set { p with profiler }
  tell events

def clearProfile : Op Unit := modify fun p => { p with profiler := p.profiler.clear }

/-! ## Counters and faults -/

/-- A kernel id that was never given before. -/
def takeKernelId : Op Nat := do
  let p ← get
  set { p with nextKernel := p.nextKernel + 1 }
  return p.nextKernel

def takeGlobalId : Op Nat := do
  let p ← get
  set { p with nextGlobal := p.nextGlobal + 1 }
  return p.nextGlobal

def checkFault : Op Unit := onEngine Engine.checkFault

def synchronize : Op Unit := onBackend Backend.synchronize

/-- The backend's name, for an architecture that compiles through LLVM. -/
def llvmBackend (p : Program) : Except Misuse String :=
  if p.arch.usesLlvm then pure p.backend.name else throw (.notLlvm p.arch)

end Program

end FieldCompute
