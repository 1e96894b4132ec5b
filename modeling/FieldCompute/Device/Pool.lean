import FieldCompute.Routine
import FieldCompute.Device
/-!
# The memory pool

A pool keeps released allocations on a free list per size and hands them out again, the latest
first. When the device refuses a request the pool gives back all that it keeps and asks once more.
A terminated pool keeps nothing and refuses every request.
-/

namespace FieldCompute

/-- What a pool has done: allocations taken from the device, allocations served from the free
lists, and how many are on the free lists now. -/
structure PoolStats where
  fresh : Nat
  reused : Nat
  cached : Nat
deriving DecidableEq, Repr

/-- A pool with the device it draws from. Each free list has the oldest allocation first and is at
most `capacity` long. -/
structure Pool where
  device : Device
  capacity : Nat
  free : Table Nat (List Allocation)
  stats : PoolStats
  terminated : Bool
deriving Repr

namespace Pool

/-- How many allocations of one size a pool keeps unless told otherwise. -/
def defaultCapacity : Nat := 32

def create (device : Device) (capacity : Nat) : Pool := ⟨device, capacity, .empty, ⟨0, 0, 0⟩, false⟩

/-- The free list of a size. -/
def bucket (p : Pool) (size : Nat) : List Allocation := (p.free.find? size).getD []

/-- Every allocation on a free list. -/
def cachedAllocations (p : Pool) : List Allocation := p.free.values.flatten

/-- Runs a device call that gives a new device. -/
def onDevice (f : Device → Except DeviceError Device) : Routine Pool DeviceError Unit := do
  let p ← get
  let device ← Routine.answer (f p.device)
  set { p with device }

/-- Runs a device call that gives an allocation and a new device. -/
def fromDevice (f : Device → Except DeviceError (Allocation × Device)) :
    Routine Pool DeviceError Allocation := do
  let p ← get
  let (allocation, device) ← Routine.answer (f p.device)
  set { p with device }
  return allocation

/-- Empties the free lists and gives their allocations back, up to the first one that the device
refuses to take. -/
def drain : Routine Pool DeviceError Unit := do
  let p ← get
  set { p with free := .empty, stats := { p.stats with cached := 0 } }
  p.cachedAllocations.forM fun a => onDevice (·.deallocate a)

/-- A new allocation from the device. After a refusal the pool is drained and the device asked
again; a second refusal is reported as the first one. -/
def allocateFresh (size : Nat) : Routine Pool DeviceError Allocation := do
  let allocation ←
    match ← (fromDevice (·.allocate size)).attempt with
    | .ok a => pure a
    | .error e =>
      drain
      (fromDevice (·.allocate size)).mapError fun _ => e
  modify fun p => { p with stats := { p.stats with fresh := p.stats.fresh + 1 } }
  return allocation

/-- Takes the latest allocation off a free list. -/
def takeCached? (p : Pool) (size : Nat) : Option (Allocation × Pool) :=
  (p.bucket size).getLast?.map fun a =>
    (a, { p with
      free := p.free.insert size (p.bucket size).dropLast
      stats := { p.stats with reused := p.stats.reused + 1, cached := p.stats.cached - 1 } })

/-- An allocation of `size` bytes, from the free list of that size if it has one. On `zero` all
its bytes are zero; else a recycled one holds what its last owner left. -/
def allocate (size : Nat) (zero : Bool) : Routine Pool DeviceError Allocation := do
  let p ← get
  if p.terminated then throw .poolTerminated
  match p.takeCached? size with
  | some (allocation, p) =>
    set p
    if zero then onDevice (·.fill allocation 0)
    return allocation
  | none => allocateFresh size

/-- Gives an allocation to the pool. A full free list or a terminated pool passes it on to the
device. -/
def release (a : Allocation) : Routine Pool DeviceError Unit := do
  let p ← get
  if !p.terminated && (p.bucket a.size).length < p.capacity then
    set { p with
      free := p.free.insert a.size (p.bucket a.size ++ [a])
      stats := { p.stats with cached := p.stats.cached + 1 } }
  else onDevice (·.deallocate a)

/-- Ends the pool: from now on it keeps nothing and refuses every request. -/
def terminate : Routine Pool DeviceError Unit := do
  modify fun p => { p with terminated := true }
  drain

end Pool

end FieldCompute
