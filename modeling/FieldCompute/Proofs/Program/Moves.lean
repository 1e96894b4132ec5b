import FieldCompute.Proofs.Routine
import FieldCompute.Proofs.Device.Ledger
import FieldCompute.Proofs.Program.Runs
import Mathlib.Logic.Relation
/-!
# Moves

`Calm`, `Closing` and `Move` list all that ever happens to a program that owns memory, in small
moves: an allocation comes from the pool, an array takes it, the pool gets it back, and so on.
Between two moves an allocation on its way is held, as those are that callers got. Every command is
a chain of moves, so a property that each move keeps holds in every run. Finalizing is one move, as
trees and their storage do not go together in the middle of it.
-/

namespace FieldCompute

open Routine Relation

/-- What compiling the kernel may give. -/
def Kernel.Makes (k : Kernel) (code : Code) : Prop :=
  code.kernel = k.name ∧ ∃ optimize, k.lower optimize = .ok code.body

namespace Program

/-- The backend refuses no call. -/
def Hosted (p : Program) : Prop := p.backend.refusals = []

def withPool (p : Program) (pool : Pool) : Program := p.withEngine { p.engine with pool }

def withStorage (p : Program) (storage : Table Nat Storage) : Program :=
  p.withEngine { p.engine with storage }

/-- Settings, results, events, functions and counters may differ. -/
structure Quiet (p p' : Program) : Prop where
  backend : p'.backend = p.backend
  trees : p'.trees = p.trees
  accessors : p'.accessors = p.accessors
  kernels : p'.kernels = p.kernels
  evaluators : p'.evaluators = p.evaluators
  ndarrays : p'.ndarrays = p.ndarrays
  nextNdarray : p'.nextNdarray = p.nextNdarray
  textures : p'.textures = p.textures
  finalized : p'.finalized = p.finalized
  nextKernel : p.nextKernel ≤ p'.nextKernel

/-- What quiet changes leave as it is. -/
def lasting (p : Program) :=
  (p.backend, p.trees, p.accessors, p.kernels, p.evaluators, p.ndarrays, p.nextNdarray, p.textures,
    p.finalized)

theorem Quiet.of_lasting {p p' : Program} (h : p'.lasting = p.lasting)
    (hn : p.nextKernel ≤ p'.nextKernel) : p.Quiet p' := by
  simp only [lasting, Prod.mk.injEq] at h
  obtain ⟨backend, trees, accessors, kernels, evaluators, ndarrays, next, textures, finalized⟩ := h
  exact ⟨backend, trees, accessors, kernels, evaluators, ndarrays, next, textures, finalized, hn⟩

instance : Std.Refl Quiet := ⟨fun _ => .of_lasting rfl (Nat.le_refl _)⟩

instance : IsTrans Program Quiet where
  trans _ _ _ h h' :=
    ⟨h'.1.trans h.1, h'.2.trans h.2, h'.3.trans h.3, h'.4.trans h.4, h'.5.trans h.5,
      h'.6.trans h.6, h'.7.trans h.7, h'.8.trans h.8, h'.9.trans h.9, Nat.le_trans h.10 h'.10⟩

/-- Neither the results nor the list of kernels differ. -/
structure Discreet (p p' : Program) : Prop extends p.Quiet p' where
  slots : p'.slots = p.slots
  listed : p'.listed = p.listed

instance : Std.Refl Discreet := ⟨fun _ => ⟨.of_lasting rfl (Nat.le_refl _), rfl, rfl⟩⟩

instance : IsTrans Program Discreet where
  trans _ _ _ h h' :=
    ⟨IsTrans.trans _ _ _ h.1 h'.1, h'.slots.trans h.slots, h'.listed.trans h.listed⟩

/-- The pool or the device does not take the allocation back. -/
def Refuses (p : Program) (a : Allocation) : Prop :=
  (∃ e, ((Pool.release a).on p.pool).1 = .error e) ∨ ∃ e, p.device.deallocate a = .error e

/-- Only a program that is finalized has left its pool, and then no tree and no array has memory. -/
def Moored (p : Program) : Prop :=
  p.engine.attached = false →
    p.finalized = true ∧ p.engine.storage = .empty ∧ p.ndarrays = .empty

/-- The program is finalized and has neither trees nor arrays. -/
structure Closed (p : Program) : Prop where
  finalized : p.finalized = true
  trees : p.trees = .empty
  storage : p.engine.storage = .empty
  ndarrays : p.ndarrays = .empty

/-- The accessors that are left when a tree goes. -/
def accessorsWithout (p : Program) (t : FieldTree) : Table (Accessor × NodeId) Nat :=
  t.root.places.foldl
    (fun known place => (known.erase (.reader, place.id)).erase (.writer, place.id)) p.accessors

/-- The program without the tree that is live under an id, its accessors and its storage. -/
def withoutTree (p : Program) (id : Nat) (t : FieldTree) : Program :=
  { p with trees := (p.trees.remove id).2, accessors := p.accessorsWithout t }.withStorage
    (if t.compileOnly then p.engine.storage else p.engine.storage.erase id)

/-- The storage that goes with the tree that is live under an id. -/
def storageOf (p : Program) (id : Nat) (t : FieldTree) : List Allocation :=
  if t.compileOnly then [] else ((p.engine.storage.find? id).map (·.allocation)).toList

end Program

/-- The allocations that are in nobody's hands but the mover's change with the pool. -/
inductive Pool.Move : Pool → List Allocation → Pool → List Allocation → Prop
  | allocated {p p' : Pool} {held : List Allocation} {size : Nat} {zero : Bool} {a : Allocation} :
    (allocate size zero).on p = (.ok a, p') → Move p held p' (a :: held)
  | refused {p p' : Pool} {held : List Allocation} {size : Nat} {zero : Bool} {e : DeviceError} :
    (allocate size zero).on p = (.error e, p') → Move p held p' held
  | imaged {p p' : Pool} {held : List Allocation} {i : Image} {a : Allocation} :
    (fromDevice (·.allocateImage i)).on p = (.ok a, p') → Move p held p' (a :: held)
  | released {p p' : Pool} {held : List Allocation} {a : Allocation} :
    a ∈ held → (release a).on p = (.ok (), p') → Move p held p' (held.erase a)
  | freed {p p' : Pool} {held : List Allocation} {a : Allocation} :
    a ∈ held → (onDevice (·.deallocate a)).on p = (.ok (), p') → Move p held p' (held.erase a)

open Program in
/-- Moves that leave the bytes of all allocations in use alone and give no tree storage. -/
inductive Calm : World → World → Prop
  | quiet {p p' : Program} {held : List Allocation} : p.Quiet p' → Calm ⟨p, held⟩ ⟨p', held⟩
  /-- A new kernel is kept, perhaps with its code. -/
  | kernel {p p' : Program} {held : List Allocation} (k : Kernel) :
    k.id = p.nextKernel → (∀ code, k.code? = some code → k.Makes code) → p.Quiet p' →
    p.nextKernel < p'.nextKernel →
    Calm ⟨p, held⟩ ⟨{ p' with kernels := p.kernels.insert k.id k }, held⟩
  /-- The code of a kernel is kept, unless it has some. -/
  | code {p : Program} {held : List Allocation} (id : Nat) (k : Kernel) (code : Code) :
    p.kernels.find? id = some k → (k.code? = none → k.Makes code) →
    Calm ⟨p, held⟩
      ⟨{ p with kernels := p.kernels.insert k.id { k with code? := k.code?.or (some code) } }, held⟩
  | accessor {p : Program} {held : List Allocation} (a : Accessor) (place : Place) (id : Nat) :
    p.place? place.id = some place → p.kernels.find? id = some (a.kernel place id) →
    Calm ⟨p, held⟩ ⟨{ p with accessors := p.accessors.insert (a, place.id) id }, held⟩
  | evaluator {p : Program} {held : List Allocation} (key : EvaluatorKey) (id : Nat)
      (number : UInt32) (code : Code) :
    p.kernels.find? id = some { key.kernel id number with code? := some code } →
    (key.kernel id number).lower false = .ok code.body →
    Calm ⟨p, held⟩ ⟨{ p with evaluators := p.evaluators.insert key id }, held⟩
  | pool {p : Program} {held held' : List Allocation} (pool : Pool) :
    p.pool.Move held pool held' → Calm ⟨p, held⟩ ⟨p.withPool pool, held'⟩
  | fault {p : Program} {held : List Allocation} (fault : Option String) :
    Calm ⟨p, held⟩ ⟨p.withEngine { p.engine with fault }, held⟩
  /-- A new array with memory from the pool. -/
  | ndarray {p : Program} {held : List Allocation} (a : Ndarray) (size : Nat) (zero : Bool)
      (pool : Pool) :
    a.id = p.nextNdarray → p.engine.attached = true → a.dtype.arrayBytes? a.shape = some size →
    (Pool.allocate size zero).on p.pool = (.ok a.allocation, pool) →
    Calm ⟨p, held⟩
      ⟨{ p with ndarrays := p.ndarrays.insert a.id a, nextNdarray := a.id + 1 }.withPool pool, held⟩
  | ndarrayGone {p : Program} {held : List Allocation} (id : Nat) (a : Ndarray) :
    p.ndarrays.find? id = some a →
    Calm ⟨p, held⟩ ⟨{ p with ndarrays := p.ndarrays.erase id }, a.allocation :: held⟩
  | texture {p : Program} {held : List Allocation} (t : Texture) (pool : Pool) :
    (Pool.fromDevice (·.allocateImage t.image)).on p.pool = (.ok t.allocation, pool) →
    Calm ⟨p, held⟩ ⟨{ p with textures := p.textures ++ [t] }.withPool pool, held⟩
  | layout {p : Program} {held : List Allocation} (root : Node) :
    Calm ⟨p, held⟩ ⟨{ p with trees := (p.trees.add root true).2 }, held⟩
  /-- A tree was registered, got no storage and was taken out again. -/
  | treeRejected {p : Program} {held : List Allocation} (root : Node) :
    Calm ⟨p, held⟩
      ⟨{ p with trees := ((p.trees.add root false).2.remove (p.trees.add root false).1.id).2 },
        held⟩
  | treeGone {p : Program} {held : List Allocation} (id : Nat) (t : FieldTree) :
    p.trees.get? id = some t → Calm ⟨p, held⟩ ⟨p.withoutTree id t, p.storageOf id t ++ held⟩
  /-- Allocations would get lost if one of them were not taken back. -/
  | lost {p : Program} {held held' : List Allocation} (a : Allocation) :
    a ∈ held → p.Refuses a → held'.Sublist held → Calm ⟨p, held⟩ ⟨p, held'⟩

theorem Calm.of_quiet {w w' : World} (hq : w.program.Quiet w'.program) (hheld : w'.held = w.held) :
    Calm w w' := by
  obtain ⟨p', held'⟩ := w'
  obtain rfl : held' = w.held := hheld
  exact .quiet hq

open Program in
/-- Moves at the end of a program. -/
inductive Closing : World → World → Prop
  /-- The end begins: arrays and textures let go of their memory. -/
  | emptied {p : Program} {held : List Allocation} :
    Closing ⟨p, held⟩ ⟨p.emptied,
      p.ndarrays.values.map (·.allocation) ++ p.textures.map (·.allocation) ++ held⟩
  | storageGone {p : Program} {held : List Allocation} (id : Nat) (s : Storage) :
    p.finalized = true → p.engine.storage.find? id = some s →
    Closing ⟨p, held⟩ ⟨p.withStorage (p.engine.storage.erase id), s.allocation :: held⟩
  | allStorageGone {p : Program} {held : List Allocation} :
    p.finalized = true →
    Closing ⟨p, held⟩
      ⟨p.withStorage .empty, p.engine.storage.values.map (·.allocation) ++ held⟩
  | detached {p : Program} {held : List Allocation} :
    p.finalized = true → p.engine.storage = .empty →
    Closing ⟨p, held⟩ ⟨p.withEngine { p.engine with attached := false }, held⟩
  | poolTerminated {p : Program} {held : List Allocation} :
    p.finalized = true → Closing ⟨p, held⟩ ⟨p.withPool (Pool.terminate.on p.pool).2, held⟩

/-- Moves of a teardown. -/
def Ending (w w' : World) : Prop := Calm w w' ∨ Closing w w'

/-- The command goes past the program, to its device or its pool. -/
def Command.IsRaw : Command → Prop
  | .deviceAllocate _ | .deviceImage _ | .deviceFree _ | .deviceWrite .. | .deviceFill ..
  | .poolAllocate .. | .poolRelease _ | .poolTerminate => True
  | _ => False

open Program in
/-- All moves. A raw command is one, if it is `ok`. -/
inductive Move (ok : World → Command → Prop) : World → World → Prop
  | calm {w w' : World} : Calm w w' → Move ok w w'
  /-- The program is finalized, with all that goes on meanwhile. -/
  | finished {p p' : Program} {held : List Allocation} :
    ReflTransGen Ending ⟨p, held⟩ ⟨p', held⟩ → p'.Closed → Move ok ⟨p, held⟩ ⟨p', held⟩
  /-- A tree is registered with storage from the pool. -/
  | tree {p : Program} {held : List Allocation} (root : Node) (s : Storage) (pool : Pool) :
    p.engine.attached = true → Packing.ofTree? root = some s.packing →
    (Pool.allocate s.packing.size true).on p.pool = (.ok s.allocation, pool) →
    Move ok ⟨p, held⟩
      ⟨({ p with trees := (p.trees.add root false).2 }.withPool pool).withStorage
        (p.engine.storage.insert (p.trees.add root false).1.id s), held⟩
  | rewritten {p : Program} {held : List Allocation} (d : Device) :
    p.device.Rewritten d → Move ok ⟨p, held⟩ ⟨p.withDevice d, held⟩
  | raw {w : World} (c : Command) : c.IsRaw → ok w c → Move ok w (w.step c)

/-- What every move of a teardown keeps holds after it. -/
theorem ending_keeps {I : World → Prop} {w w' : World}
    (calm : ∀ {w w'}, Calm w w' → I w → I w') (closing : ∀ {w w'}, Closing w w' → I w → I w')
    (hm : ReflTransGen Ending w w') (h : I w) : I w' := by
  induction hm with
  | refl => exact h
  | tail _ hm ih => exact hm.elim (calm · ih) (closing · ih)

end FieldCompute
