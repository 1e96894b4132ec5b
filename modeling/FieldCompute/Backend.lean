import FieldCompute.Engine
import FieldCompute.Log
/-!
# Backends

A backend is what a program drives: the host engine under a name of its own, perhaps without a
compute device, perhaps with a graphics device, and with a list of calls that it refuses. The
registry maps architectures to the backends that serve them; the others fall back to the host.
-/

namespace FieldCompute

/-- The calls that a backend may refuse. -/
inductive BackendCall where
  | start | compile | materialize | destroy | releaseNdarray | releaseTexture | synchronize
  | finalize
deriving DecidableEq, Repr

/-- A call that is refused, and the reason that is given. -/
structure Refusal where
  call : BackendCall
  /-- The id of the one tree or allocation for which the call is refused; `none` stands for all. -/
  subject? : Option Nat
  reason : String
deriving DecidableEq, Repr

/-- The refusal is about this call for this tree or allocation, if the call is for one. -/
def Refusal.covers (r : Refusal) (call : BackendCall) (subject? : Option Nat) : Bool :=
  r.call = call && (r.subject?.isNone || r.subject? = subject?)

structure Backend where
  name : String
  engine : Engine
  /-- What is refused; the first entry that covers a call gives the reason. -/
  refusals : List Refusal
  hasCompute : Bool
  hasGraphics : Bool
deriving Repr

namespace Backend

variable {α : Type}

/-- The host engine as it is. -/
def host (c : Config) (reservable : Nat := Device.defaultReservable) : Backend :=
  ⟨Engine.name, .create c reservable, [], true, false⟩

/-- The compute device by name. -/
def computeDevice? (b : Backend) : Option String := if b.hasCompute then some Device.name else none

/-- The graphics device by name. -/
def graphicsDevice? (b : Backend) : Option String :=
  if b.hasGraphics then some Device.name else none

def onEngine (a : Routine Engine Failure α) : Routine Backend Failure α :=
  a.zoom Backend.engine fun engine b => { b with engine }

/-- Why a call is refused, if it is. -/
def refusal? (b : Backend) (call : BackendCall) (subject? : Option Nat) : Option String :=
  (b.refusals.find? (·.covers call subject?)).map (·.reason)

/-- A call of the engine that the backend may refuse. -/
def guarded (call : BackendCall) (subject? : Option Nat) (a : Routine Engine Failure α) :
    Routine Backend Failure α := do
  match (← get).refusal? call subject? with
  | some reason => throw (.error (.runtime reason))
  | none => onEngine a

def start : Routine Backend Failure Unit := guarded .start none Engine.attach

def materialize (t : FieldTree) : Routine Backend Failure Unit :=
  guarded .materialize t.id (Engine.materialize t)

def destroy (tree : Nat) : Routine Backend Failure Unit :=
  guarded .destroy tree (Engine.destroy tree)

def releaseNdarray (a : Allocation) : Routine Backend Failure Unit :=
  guarded .releaseNdarray a.id (Engine.releaseNdarray a)

def releaseTexture (a : Allocation) : Routine Backend Failure Unit :=
  guarded .releaseTexture a.id (Engine.releaseTexture a)

/-- Nothing is ever under way on the host. -/
def synchronize : Routine Backend Failure Unit := guarded .synchronize none (pure ())

def finalize : Routine Backend Failure Unit := guarded .finalize none Engine.finalize

/-- Makes a lowered body ready to run. -/
def compile (b : Backend) (c : Config) (kernel : String) (body : Block) : Except Error Code :=
  match b.refusal? .compile none with
  | some reason => throw (.compilation kernel reason)
  | none => pure ⟨kernel, body, c.checksBounds⟩

end Backend

/-- How the backend for an architecture comes about. -/
inductive BackendFactory where
  | host
  /-- There is none after all. -/
  | refusing
deriving DecidableEq, Repr

/-- The architectures that have a factory. -/
structure Backends where
  factories : Table Arch BackendFactory
deriving Repr

namespace Backends

def register (bs : Backends) (a : Arch) (f : BackendFactory) : Backends := ⟨bs.factories.insert a f⟩

/-- The host backend serves the two CPU architectures. -/
def initial : Backends := ((⟨.empty⟩ : Backends).register .x64 .host).register .arm64 .host

def supports (bs : Backends) (a : Arch) : Bool := bs.factories.contains a

/-- The architecture itself if it has a factory; else the host, with a warning. -/
def resolve (bs : Backends) (requested : Arch) : Arch × List Event :=
  if bs.supports requested then (requested, []) else (.host, [.archFallback requested .host])

def create (bs : Backends) (c : Config) (reservable : Nat := Device.defaultReservable) :
    Except Error Backend :=
  match bs.factories.find? c.arch with
  | some .host => pure (.host c reservable)
  | some .refusing | none => throw (.unsupportedArch c.arch)

end Backends

end FieldCompute
