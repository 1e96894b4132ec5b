import FieldCompute.Scalar
import FieldCompute.Table
import FieldCompute.Text.Messages
/-!
# Host memory as a device

A device hands out allocations under ids that rise and never come back, and moves bytes in and out
of them. Every operation answers with the new device only when it succeeds, so a refused call
cannot have changed anything.
-/

namespace FieldCompute

/-- A handle to a block of device memory. Anybody can write one down: what it stands for is
decided by its id. -/
structure Allocation where
  id : Nat
  size : Nat
deriving DecidableEq, Repr, Inhabited

/-- A position inside an allocation. -/
structure Pointer where
  allocation : Allocation
  offset : Nat
deriving DecidableEq, Repr

/-- An image resource. -/
structure Image where
  dtype : DType
  channels : Nat
  shape : List Nat
deriving DecidableEq, Repr

/-- The size of an image, if it is one. -/
def Image.bytes? (i : Image) : Option Nat := do Size.mul? (← i.dtype.arrayBytes? i.shape) i.channels

/-- What a device or a pool refuses. -/
inductive DeviceError where
  | outOfMemory (requested inUse limit : Nat)
  | hostAllocation (requested : Nat)
  | sizeOverflow (what : String)
  | unknownAllocation (device : String) (id : Nat)
  | invalidAccess (offset size allocSize : Nat)
  | unsupported (device operation : String)
  | poolTerminated
deriving DecidableEq, Repr

def DeviceError.message : DeviceError → String
  | outOfMemory r u l => s!"out of device memory: requested {r} bytes with {u} of {l} in use"
  | hostAllocation r => s!"failed to reserve {r} bytes of host memory"
  | sizeOverflow what => s!"size of {what} overflows usize"
  | unknownAllocation d id => s!"unknown allocation {id} on {d}"
  | invalidAccess o s a => s!"invalid access: offset {o} + size {s} exceeds allocation size {a}"
  | unsupported d op => s!"{d} does not support {op}"
  | poolTerminated => "memory pool is terminated"

/-- The live allocations with their bytes, the next id, and the bytes that may be live at once. -/
structure Device where
  memory : Table Nat (Array UInt8)
  nextId : Nat
  limit : Option Nat
  /-- The most bytes that the host reserves for one allocation. -/
  reservable : Nat
deriving Repr

namespace Device

/-- The most bytes that a host reserves for one allocation unless told otherwise. -/
def defaultReservable : Nat := 2 ^ 40

/-- A device without allocations. -/
def create (limit : Option Nat) (reservable : Nat := defaultReservable) : Device :=
  ⟨.empty, 0, limit, reservable⟩

def name : String := "CPU"

/-- The bytes of all live allocations. -/
def allocated (d : Device) : Nat := (d.memory.values.map Array.size).sum

def isLive (d : Device) (id : Nat) : Bool := d.memory.contains id

private def unknown (id : Nat) : DeviceError := .unknownAllocation name id

/-- Whether `size` more bytes stay within the limit. -/
def admits (d : Device) (size : Nat) : Bool := d.limit.all fun limit => d.allocated + size ≤ limit

/-- A new allocation, all zero. The limit is looked at before the host is asked. -/
def allocate (d : Device) (size : Nat) : Except DeviceError (Allocation × Device) :=
  if !d.admits size then throw (.outOfMemory size d.allocated (d.limit.getD 0))
  else if d.reservable < size then throw (.hostAllocation size)
  else
    pure (⟨d.nextId, size⟩,
      { d with memory := d.memory.insert d.nextId (.replicate size 0), nextId := d.nextId + 1 })

def deallocate (d : Device) (a : Allocation) : Except DeviceError Device :=
  if d.isLive a.id then pure { d with memory := d.memory.erase a.id } else throw (unknown a.id)

/-- The bytes of a live allocation, for an access that stays inside them. -/
def span (d : Device) (p : Pointer) (length : Nat) : Except DeviceError (Array UInt8) :=
  match d.memory.find? p.allocation.id with
  | none => throw (unknown p.allocation.id)
  | some data =>
    if p.offset + length ≤ data.size then pure data
    else throw (.invalidAccess p.offset length data.size)

def read (d : Device) (p : Pointer) (length : Nat) : Except DeviceError (List UInt8) :=
  return ((← d.span p length).extract p.offset (p.offset + length)).toList

def write (d : Device) (p : Pointer) (bytes : List UInt8) : Except DeviceError Device := do
  let data ← d.span p bytes.length
  let data := data.extract 0 p.offset ++ bytes.toArray ++
    data.extract (p.offset + bytes.length) data.size
  return { d with memory := d.memory.insert p.allocation.id data }

/-- Byte `i` of a 32-bit pattern that is repeated, low byte first. -/
def patternByte (pattern : UInt32) (i : Nat) : UInt8 := (pattern.toNat / 256 ^ (i % 4)).toUInt8

/-- Fills as many bytes as the handle says with a repeated pattern. -/
def fill (d : Device) (a : Allocation) (pattern : UInt32) : Except DeviceError Device := do
  let data ← d.span ⟨a, 0⟩ a.size
  let data := Array.ofFn (fun i : Fin a.size => patternByte pattern i) ++
    data.extract a.size data.size
  return { d with memory := d.memory.insert a.id data }

/-- Images are plain allocations. -/
def allocateImage (d : Device) (image : Image) : Except DeviceError (Allocation × Device) :=
  match image.bytes? with
  | none => throw (.sizeOverflow s!"{Text.extents image.shape} image")
  | some size => d.allocate size

end Device

/-- A device that offers nothing but the calls every device has: memory of the host, no images. -/
structure BasicDevice where
  host : Device
deriving Repr

namespace BasicDevice

def name : String := "basic"

def allocateImage (_ : BasicDevice) (_ : Image) : Except DeviceError (Allocation × Device) :=
  throw (.unsupported name "images")

end BasicDevice

end FieldCompute
