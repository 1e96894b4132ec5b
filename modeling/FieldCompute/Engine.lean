import FieldCompute.Device.Pool
import FieldCompute.Interpreter
import FieldCompute.Kernel
/-!
# The host engine

The engine keeps fields in host memory, one allocation per tree, and runs kernels by interpreting
them. Its allocations come from a memory pool as long as it is attached to one; images come from
the device itself. It remembers the first fault since the last check.
-/

namespace FieldCompute

structure Engine where
  arch : Arch
  pool : Pool
  /-- The pool may be used. -/
  attached : Bool
  /-- The storage of every materialized tree, by the tree's id. -/
  storage : Table Nat Storage
  /-- The message of the first fault since the last check. -/
  fault : Option String
deriving Repr

namespace Engine

variable {α : Type}

def name : String := "cpu"

/-- An engine on a fresh device of a host, with a pool that it is not attached to yet. -/
def create (c : Config) (reservable : Nat := Device.defaultReservable) : Engine :=
  ⟨c.arch, .create (.create c.memoryLimit? reservable) Pool.defaultCapacity, false, .empty, none⟩

def device (e : Engine) : Device := e.pool.device

def withDevice (e : Engine) (d : Device) : Engine := { e with pool := { e.pool with device := d } }

/-- Runs a call of the pool, attached or not. -/
def onPool (a : Routine Pool DeviceError α) : Routine Engine Failure α :=
  (a.mapError .device).zoom Engine.pool fun pool e => { e with pool }

/-- Runs a call of the pool that the engine is attached to. -/
def throughPool (a : Routine Pool DeviceError α) : Routine Engine Failure α := do
  if !(← get).attached then throw (.error (.runtime "runtime is not materialized"))
  onPool a

def attach : Routine Engine Failure Unit := modify ({ · with attached := true })

/-! ## Memory -/

def allocateNdarray (size : Nat) (zero : Bool) : Routine Engine Failure Allocation :=
  throughPool (Pool.allocate size zero)

def releaseNdarray (a : Allocation) : Routine Engine Failure Unit := throughPool (Pool.release a)

def allocateTexture (i : Image) : Routine Engine Failure Allocation :=
  onPool (Pool.fromDevice (·.allocateImage i))

def releaseTexture (a : Allocation) : Routine Engine Failure Unit :=
  onPool (Pool.onDevice (·.deallocate a))

/-! ## Fields -/

/-- Gives a tree its storage, all zero. -/
def materialize (t : FieldTree) : Routine Engine Failure Unit := do
  let packing ← Routine.answer (t.packing.mapError Failure.error)
  let allocation ← throughPool (Pool.allocate packing.size true)
  modify fun e => { e with storage := e.storage.insert t.id ⟨allocation, packing⟩ }

/-- Takes the storage of a tree back, if it has any. -/
def destroy (tree : Nat) : Routine Engine Failure Unit := do
  let e ← get
  match e.storage.find? tree with
  | none => pure ()
  | some s =>
    set { e with storage := e.storage.erase tree }
    throughPool (Pool.release s.allocation)

/-- Where a place is stored. If several trees have it the first one in the table counts. -/
def binding? (e : Engine) (place : NodeId) : Option Binding :=
  e.storage.values.findSome? (·.binding? place)

/-- The offset of a place in the storage of its tree. -/
def fieldOffset? (e : Engine) (tree : Nat) (place : NodeId) : Option Nat :=
  ((e.storage.find? tree).bind (·.packing.field? place)).map (·.offset)

/-- Where the storage of a tree begins. -/
def treePointer? (e : Engine) (tree : Nat) : Option Pointer :=
  (e.storage.find? tree).map (⟨·.allocation, 0⟩)

/-! ## Running -/

/-- The message of the fault that a failure is to be recorded as, if it is one for this code. -/
def faultOf? (code : Code) : Failure → Option String
  | .error (.outOfBounds k place indices shape) =>
    if code.checksBounds then some (Error.outOfBounds k place indices shape).message else none
  | _ => none

/-- Runs code. A fault ends the run like a success; only the first one is remembered. -/
def run (code : Code) (args : List Value) : Routine (Engine × ResultSlots) Failure Unit :=
  .of fun (e, slots) =>
    let launch : Launch := ⟨code.kernel, code.body, args, e.binding?⟩
    let (r, m) := launch.run ⟨e.device, slots⟩
    let e := e.withDevice m.device
    match r with
    | .ok () => (.ok (), e, m.slots)
    | .error halt =>
      match faultOf? code halt.failure with
      | some fault => (.ok (), { e with fault := e.fault.or (some fault) }, m.slots)
      | none => (.error halt.failure, e, m.slots)

/-- Reports the remembered fault and forgets it. -/
def checkFault : Routine Engine Failure Unit := do
  let e ← get
  set { e with fault := none }
  match e.fault with
  | none => pure ()
  | some fault => throw (.error (.runtime fault))

/-- Gives back the storage of all trees and leaves the pool. A release that fails ends this early,
and the engine stays attached. -/
def finalize : Routine Engine Failure Unit := do
  let e ← get
  set { e with storage := .empty }
  if e.attached then e.storage.values.forM fun s => throughPool (Pool.release s.allocation)
  modify ({ · with attached := false })

end Engine

end FieldCompute
