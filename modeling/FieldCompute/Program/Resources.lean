import FieldCompute.Program
import FieldCompute.Value.Bytes
/-!
# Arrays and textures of a program

Arrays live in pooled memory until they are deleted; a deleted handle is never given again.
Textures live as long as the program.
-/

namespace FieldCompute.Program

/-! ## Arrays -/

/-- Memory that the caller owns. -/
def allocateMemory (size : Nat) (zero : Bool) : Op Allocation :=
  onEngine (Engine.allocateNdarray size zero)

def createNdarray (dtype : DType) (shape : List Nat) (layout : ArrayLayout) (zero : Bool) :
    Op Nat := do
  match dtype.arrayBytes? shape with
  | none => throw (.error (.sizeOverflow s!"{dtype.name} ndarray {Text.extents shape}"))
  | some size =>
    let allocation ← allocateMemory size zero
    let p ← get
    let id := p.nextNdarray
    set { p with
      ndarrays := p.ndarrays.insert id ⟨id, dtype, shape, layout, allocation⟩
      nextNdarray := id + 1 }
    return id

def ndarray (id : Nat) : Op Ndarray := do
  match (← get).ndarrays.find? id with
  | some a => pure a
  | none => throw (.error (.ndarrayNotFound id))

/-- Forgets an array and gives its memory back. -/
def deleteNdarray (id : Nat) : Op Unit := do
  let a ← ndarray id
  modify fun p => { p with ndarrays := p.ndarrays.erase id }
  onBackend (Backend.releaseNdarray a.allocation)

/-- Where an array begins. -/
def ndarrayPointer (id : Nat) : Op Pointer := return ⟨(← ndarray id).allocation, 0⟩

/-- Fills an array with a repeated 32-bit pattern. -/
def fillNdarray (id : Nat) (pattern : UInt32) : Op Unit := do
  let a ← ndarray id
  let d ← .answer (((← get).device.fill a.allocation pattern).mapError .device)
  modify (·.withDevice d)

/-- The 32-bit words that bytes make up, the lowest byte first. Up to three last bytes that make no
word are left out. -/
def wordsOf : List UInt8 → List Nat
  | a :: b :: c :: d :: rest => ofLowBytes [a, b, c, d] :: wordsOf rest
  | _ => []

/-- An array as 32-bit words. -/
def readNdarray (id : Nat) : Op (List Nat) := do
  let a ← ndarray id
  wordsOf <$> .answer (((← get).device.read ⟨a.allocation, 0⟩ a.allocation.size).mapError .device)

/-! ## Textures -/

/-- Image memory that the caller owns. -/
def allocateImage (i : Image) : Op Allocation := onEngine (Engine.allocateTexture i)

/-- A new texture, named by its position. -/
def createTexture (i : Image) : Op Nat := do
  let allocation ← allocateImage i
  let p ← get
  set { p with textures := p.textures ++ [Texture.mk i allocation] }
  return p.textures.length

end FieldCompute.Program
